import Mathlib.Data.List.Induction
import DensityClustering.Geometry.Combine
import DensityClustering.Proofs.Geometry.Parts
import DensityClustering.Proofs.Scalar.Difference

/-!
Intersections in which one side has no area. They are made of vertices of that side which the other
one covers. Where neither side has an area the vertices are those of the side that was given first, of
whatever dimension it is, so that the answer can depend on the order.
-/

namespace DensityClustering

namespace Geometry

section Picking

variable {S : Type} [Scalar S] {low other g : Geometry S} {points : List (Coord S)} {c : Coord S}

/-- Two for a geometry with an area, zero for points, and one for all else. -/
def dimension (g : Geometry S) : Nat :=
  if g.areal.isSome then 2
  else
    match g with
    | point _ | multiPoint _ => 0
    | _ => 1

/-- The points as a geometry. -/
def ofPoints : List (Coord S) → Geometry S
  | [] => empty
  | [p] => point p
  | ps => multiPoint ps

/-- The geometry is made of the vertices of `low` which `other` covers: of all of them, up to the
tolerance, and of none twice. -/
structure Picks (low other g : Geometry S) : Prop where
  covered : ∀ c ∈ g.coords, c ∈ low.coords ∧ other.covers c = true
  complete : ∀ c ∈ low.coords, other.covers c = true → ∃ k ∈ g.coords, k = c ∨ k.near c = true
  apart : g.coords.Pairwise fun p q => p.near q = false
  shape : g = ofPoints g.coords

theorem coords_ofPoints (points : List (Coord S)) : (ofPoints points).coords = points := by
  match points with
  | [] => rfl
  | [_] => rfl
  | _ :: _ :: _ => rfl

theorem distinctPoints_concat (points : List (Coord S)) (c : Coord S) :
    distinctPoints (points ++ [c]) =
      if (distinctPoints points).any (·.near c) then distinctPoints points
      else distinctPoints points ++ [c] := by
  unfold distinctPoints
  rw [List.foldl_append]
  rfl

theorem mem_of_mem_distinctPoints (h : c ∈ distinctPoints points) : c ∈ points := by
  induction points using List.reverseRecOn with
  | nil => exact h
  | append_singleton points p ih =>
    rw [distinctPoints_concat] at h
    split at h
    · exact List.mem_append_left _ (ih h)
    · rcases List.mem_append.mp h with h | h
      · exact List.mem_append_left _ (ih h)
      · exact List.mem_append_right _ h

/-- A point is kept, or one near it is. -/
theorem exists_mem_distinctPoints (h : c ∈ points) :
    ∃ k ∈ distinctPoints points, k = c ∨ k.near c = true := by
  induction points using List.reverseRecOn with
  | nil => cases h
  | append_singleton points p ih =>
    rw [distinctPoints_concat]
    rcases List.mem_append.mp h with h | h
    · obtain ⟨k, hk, hnear⟩ := ih h
      split
      · exact ⟨k, hk, hnear⟩
      · exact ⟨k, List.mem_append_left _ hk, hnear⟩
    · obtain rfl := List.mem_singleton.mp h
      split
      · next hany =>
        obtain ⟨k, hk, hnear⟩ := List.any_eq_true.mp hany
        exact ⟨k, hk, Or.inr hnear⟩
      · exact ⟨c, List.mem_append_right _ h, Or.inl rfl⟩

theorem pairwise_distinctPoints (points : List (Coord S)) :
    (distinctPoints points).Pairwise fun p q => p.near q = false := by
  induction points using List.reverseRecOn with
  | nil => exact .nil
  | append_singleton points p ih =>
    rw [distinctPoints_concat]
    split
    · exact ih
    · next hnone =>
      have hfar : ∀ k ∈ distinctPoints points, k.near p = false := by
        intro k hk
        by_contra hnear
        exact hnone (List.any_eq_true.mpr ⟨k, hk, Bool.not_eq_false _ ▸ hnear⟩)
      refine List.pairwise_append.mpr ⟨ih, List.pairwise_singleton _ _, ?_⟩
      intro k hk q hq
      obtain rfl := List.mem_singleton.mp hq
      exact hfar k hk

theorem coveredPoints_eq (low other : Geometry S) : low.coveredPoints other =
    ofPoints (distinctPoints (low.coords.filter other.covers)) := rfl

theorem picks_coveredPoints (low other : Geometry S) :
    low.Picks other (low.coveredPoints other) where
  covered c hc := by
    rw [coveredPoints_eq, coords_ofPoints] at hc
    exact List.mem_filter.mp (mem_of_mem_distinctPoints hc)
  complete c hc hcovers := by
    rw [coveredPoints_eq, coords_ofPoints]
    exact exists_mem_distinctPoints (List.mem_filter.mpr ⟨hc, hcovers⟩)
  apart := by
    rw [coveredPoints_eq, coords_ofPoints]
    exact pairwise_distinctPoints _
  shape := by rw [coveredPoints_eq, coords_ofPoints]

theorem Picks.isEmpty_iff (h : low.Picks other g) :
    g.isEmpty = true ↔ ¬∃ v ∈ low.coords, other.covers v = true := by
  rw [isEmpty, List.isEmpty_iff]
  constructor
  · rintro hnil ⟨v, hv, hcovers⟩
    obtain ⟨k, hk, -⟩ := h.complete v hv hcovers
    rw [hnil] at hk
    cases hk
  · intro hnone
    rw [List.eq_nil_iff_forall_not_mem]
    exact fun c hc => hnone ⟨c, h.covered c hc⟩

theorem Picks.isEmpty_eq_iff {low' other' g' : Geometry S} (h : low.Picks other g)
    (h' : low'.Picks other' g') : g'.isEmpty = g.isEmpty ↔
      ((∃ v ∈ low'.coords, other'.covers v = true) ↔ ∃ v ∈ low.coords, other.covers v = true) := by
  rw [Bool.eq_iff_iff, h.isEmpty_iff, h'.isEmpty_iff, not_iff_not]

variable {a b : Geometry S}

theorem intersection_of_low (ha : a.isFinite = true) (hb : b.isFinite = true)
    (h : a.areal = none) : a.intersection b = .ok (a.coveredPoints b) := by
  unfold intersection
  rw [ha, hb, h]
  rfl

theorem intersection_of_high (ha : a.isFinite = true) (hb : b.isFinite = true)
    (h : a.areal ≠ none) (h' : b.areal = none) :
    a.intersection b = .ok (b.coveredPoints a) := by
  obtain ⟨ps, hps⟩ := Option.ne_none_iff_exists'.mp h
  unfold intersection
  rw [ha, hb, hps, h']
  rfl

theorem dimension_of_areal (h : g.areal ≠ none) : g.dimension = 2 := by
  unfold dimension
  rw [if_pos (Option.isSome_iff_ne_none.mpr h)]

theorem dimension_le_one (h : g.areal = none) : g.dimension ≤ 1 := by
  unfold dimension
  rw [h, Option.isSome_none, if_neg Bool.false_ne_true]
  split <;> decide

/-- Points cover what they are near. -/
theorem readsVertices_of_dimension (h : g.dimension = 0) : g.readsVertices = true := by
  cases g with
  | point _ | multiPoint _ | multiLineString _ | collection _ => rfl
  | line _ _ | lineString _ | polygon _ | multiPolygon _ | box _ | triangle _ =>
    unfold dimension at h
    split at h <;> cases h

end Picking

variable {a b : Geometry Float}

/-- Whether points share a place with other points does not depend on which of them are looked at. -/
theorem exists_covered_comm (ha : a.dimension = 0) (hb : b.dimension = 0) :
    (∃ v ∈ b.coords, a.covers v = true) ↔ ∃ v ∈ a.coords, b.covers v = true := by
  simp only [covers_iff_touches (readsVertices_of_dimension ha),
    covers_iff_touches (readsVertices_of_dimension hb), Touches]
  constructor
  · rintro ⟨v, hv, p, hp, hnear⟩
    exact ⟨p, hp, v, hv, (Coord.near_comm v p).trans hnear⟩
  · rintro ⟨p, hp, v, hv, hnear⟩
    exact ⟨v, hv, p, hp, (Coord.near_comm p v).trans hnear⟩

/-- Of two geometries that do not both have an area let `a` be the one of no higher dimension. Given
first, it is the one whose covered vertices make up the intersection; given second, it is that too
where the other one has an area. But where neither has one, the intersection is then made of vertices
of `b`, which lie near `a` if that is made of points; and the two answers are empty together exactly if
`b` has a vertex that `a` covers whenever `a` has one that `b` covers, and the other way round. That
is always so for points. -/
theorem intersection_follows_low_iff (ha : a.isFinite = true) (hb : b.isFinite = true)
    (hflat : a.areal = none ∨ b.areal = none) (hdim : a.dimension ≤ b.dimension) :
    ∃ g g', a.intersection b = .ok g ∧ b.intersection a = .ok g' ∧
      a.Picks b g ∧
      (b.areal ≠ none → g' = g) ∧
      (b.dimension = 0 → (g'.isEmpty = g.isEmpty)) ∧
      (b.areal = none → b.Picks a g' ∧ (a.dimension = 0 → ∀ c ∈ g'.coords, a.Touches c) ∧
        (g'.isEmpty = g.isEmpty ↔
          ((∃ v ∈ b.coords, a.covers v = true) ↔ ∃ v ∈ a.coords, b.covers v = true))) := by
  have hlow : a.areal = none := by
    by_contra harea
    have hhigh := dimension_of_areal harea
    have hle := dimension_le_one (hflat.resolve_left harea)
    omega
  have hpicks := picks_coveredPoints a b
  by_cases harea : b.areal = none
  · have hpicks' := picks_coveredPoints b a
    refine ⟨_, _, intersection_of_low ha hb hlow, intersection_of_low hb ha harea, hpicks,
      fun h => absurd harea h, fun hzero => ?_, fun _ => ⟨hpicks', fun hzero c hc => ?_,
      hpicks.isEmpty_eq_iff hpicks'⟩⟩
    · exact (hpicks.isEmpty_eq_iff hpicks').mpr
        (exists_covered_comm (Nat.le_zero.mp (hzero ▸ hdim)) hzero)
    · have hread := readsVertices_of_dimension hzero
      exact (covers_iff_touches hread).mp (hpicks'.covered c hc).2
  · exact ⟨_, _, intersection_of_low ha hb hlow, intersection_of_high hb ha harea hlow, hpicks,
      fun _ => rfl, fun _ => rfl, fun h => absurd h harea⟩

/-- A point in a square, and one outside of it. -/
def pegs : Geometry Float := .multiPoint [⟨1, 1⟩, ⟨5, 1⟩]

def board : Geometry Float := .polygon ⟨⟨[⟨0, 0⟩, ⟨2, 0⟩, ⟨2, 2⟩, ⟨0, 2⟩]⟩, []⟩

/-- The square and the two points have the same intersection either way. -/
theorem pegs_meet_board :
    ∃ g g', pegs.intersection board = .ok g ∧ board.intersection pegs = .ok g' ∧
      pegs.Picks board g ∧
      (board.areal ≠ none → g' = g) ∧
      (board.dimension = 0 → (g'.isEmpty = g.isEmpty)) ∧
      (board.areal = none → board.Picks pegs g' ∧
        (pegs.dimension = 0 → ∀ c ∈ g'.coords, pegs.Touches c) ∧
        (g'.isEmpty = g.isEmpty ↔
          ((∃ v ∈ board.coords, pegs.covers v = true) ↔
            ∃ v ∈ pegs.coords, board.covers v = true))) := by
  have harea : board.areal ≠ none := by decide +kernel
  refine intersection_follows_low_iff (by decide +kernel) (by decide +kernel) (Or.inl rfl) ?_
  rw [dimension_of_areal harea]
  decide

/-- A straight bar. -/
def rail : Geometry Float := .line ⟨0, 0⟩ ⟨2, 0⟩

/-- Its middle. -/
def nail : Geometry Float := .point ⟨1, 0⟩

/-- The middle of the bar lies on it, and so it is their intersection when it is given first; given
second, it covers neither end of the bar, and the intersection is empty. -/
theorem rail_misses_nail : ¬∃ g g', rail.intersection nail = .ok g ∧
    nail.intersection rail = .ok g' ∧ g.isEmpty = g'.isEmpty := by
  rintro ⟨g, g', hg, hg', hempty⟩
  rw [intersection_of_low (by decide +kernel) (by decide +kernel) rfl] at hg hg'
  obtain rfl := Except.ok.inj hg
  obtain rfl := Except.ok.inj hg'
  exact absurd hempty (by decide +kernel)

end Geometry

end DensityClustering
