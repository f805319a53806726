import DensityClustering.Proofs.Geometry.SegmentPoints

/-!
The closest pair of two geometries that are apart. Over all pairs of a point on one segment and a
point on another the distance is smallest at an end of one of them, provided that the segments share
no point or are parallel: from any two points one can move along both segments, never getting
further apart, until an end is reached. So the best pair of a vertex and a segment is the best pair
of all.
-/

namespace DensityClustering

namespace Segment

variable {p q : Segment Rat} {x y : Coord Rat} {t t' u u' k : Rat}

/-- None or all of a whole. -/
def IsEnd (t : Rat) : Prop := t = 0 ∨ t = 1

theorem IsEnd.hasEnd (h : IsEnd t) : p.HasEnd (p.pointAt t) := by
  rcases h with rfl | rfl
  · exact Or.inl p.pointAt_zero
  · exact Or.inr p.pointAt_one

/-- On the way to a number above one, one stays among the parts up to the end. -/
theorem exists_stay_of_lt (ht : IsPart t) (hover : 1 < t') : ∃ k, IsPart k ∧
    (∀ j, 0 ≤ j → j ≤ k → IsPart (t + j * (t' - t))) ∧ t + k * (t' - t) = 1 := by
  obtain ⟨hlow, hhigh⟩ := ht
  have hpos : 0 < t' - t := by linarith
  have hend : (1 - t) / (t' - t) * (t' - t) = 1 - t := div_mul_cancel₀ _ hpos.ne'
  have hk : IsPart ((1 - t) / (t' - t)) := by
    refine ⟨div_nonneg (by linarith) hpos.le, (div_le_one hpos).mpr ?_⟩
    linarith
  refine ⟨(1 - t) / (t' - t), hk, ?_, by linarith⟩
  intro j hj hjk
  have hon : 0 ≤ j * (t' - t) := mul_nonneg hj hpos.le
  have hpast : j * (t' - t) ≤ (1 - t) / (t' - t) * (t' - t) :=
    mul_le_mul_of_nonneg_right hjk hpos.le
  constructor <;> linarith

/-- On the way from a part to another number one stays among the parts up to an end, or all the
way. -/
theorem exists_stay (ht : IsPart t) (t' : Rat) : ∃ k, IsPart k ∧
    (∀ j, 0 ≤ j → j ≤ k → IsPart (t + j * (t' - t))) ∧
      (IsEnd (t + k * (t' - t)) ∨ k = 1 ∧ IsPart t') := by
  by_cases hover : 1 < t'
  · obtain ⟨k, hk, hstay, hend⟩ := exists_stay_of_lt ht hover
    exact ⟨k, hk, hstay, Or.inl (Or.inr hend)⟩
  · by_cases hunder : t' < 0
    · -- Seen from the other end it is a way to a number above one.
      have hback : ∀ j, t + j * (t' - t) = 1 - (1 - t + j * (1 - t' - (1 - t))) := by
        intro j
        ring
      obtain ⟨k, hk, hstay, hend⟩ := exists_stay_of_lt ht.rest (show 1 < 1 - t' by linarith)
      refine ⟨k, hk, ?_, Or.inl (Or.inl ?_)⟩
      · intro j hj hjk
        rw [hback]
        exact (hstay j hj hjk).rest
      · rw [hback, hend, sub_self]
    · have ht' : IsPart t' := ⟨not_lt.mp hunder, not_lt.mp hover⟩
      exact ⟨1, isPart_one, fun j hj hj' => ht.between ht' ⟨hj, hj'⟩, Or.inr ⟨rfl, ht'⟩⟩

/-- Two parts that move to two numbers not both parts come to a place where one of them is at an
end and the other one is still a part. -/
theorem exists_leave (ht : IsPart t) (hu : IsPart u) (hout : ¬(IsPart t' ∧ IsPart u')) :
    ∃ k, IsPart k ∧ IsPart (t + k * (t' - t)) ∧ IsPart (u + k * (u' - u)) ∧
      (IsEnd (t + k * (t' - t)) ∨ IsEnd (u + k * (u' - u))) := by
  obtain ⟨k, hk, hstay, hend⟩ := exists_stay ht t'
  obtain ⟨l, hl, hstay', hend'⟩ := exists_stay hu u'
  rcases le_total k l with hle | hle
  · refine ⟨k, hk, hstay k hk.1 le_rfl, hstay' k hk.1 hle, ?_⟩
    rcases hend with hend | ⟨rfl, ht'⟩
    · exact Or.inl hend
    · -- The first one never reaches an end, so the second one does, no earlier.
      obtain rfl : l = 1 := le_antisymm hl.2 hle
      exact Or.inr (hend'.resolve_right fun h => hout ⟨ht', h.2⟩)
  · refine ⟨l, hl, hstay l hl.1 hle, hstay' l hl.1 le_rfl, ?_⟩
    rcases hend' with hend' | ⟨rfl, hu'⟩
    · exact Or.inr hend'
    · obtain rfl : k = 1 := le_antisymm hk.2 hle
      exact Or.inl (hend.resolve_right fun h => hout ⟨h.2, hu'⟩)

/-- The difference of two points at the given parts. -/
def gap (p q : Segment Rat) (t u : Rat) : Coord Rat := p.pointAt t - q.pointAt u

theorem gap_x (p q : Segment Rat) (t u : Rat) :
    (p.gap q t u).x = p.start.x + (p.finish.x - p.start.x) * t -
      (q.start.x + (q.finish.x - q.start.x) * u) := rfl

theorem gap_y (p q : Segment Rat) (t u : Rat) :
    (p.gap q t u).y = p.start.y + (p.finish.y - p.start.y) * t -
      (q.start.y + (q.finish.y - q.start.y) * u) := rfl

/-- Parallel to a segment that is no single point, as a multiple of it. -/
theorem exists_multiple (hdet : p.det q = 0) (hq : q.finish ≠ q.start) :
    ∃ k, p.finish.x - p.start.x = (q.finish.x - q.start.x) * k ∧
      p.finish.y - p.start.y = (q.finish.y - q.start.y) * k := by
  have hlength : q.finish.squaredDistance q.start ≠ 0 :=
    fun hzero => hq (Coord.eq_of_squaredDistance hzero)
  rw [det] at hdet
  refine ⟨((p.finish.x - p.start.x) * (q.finish.x - q.start.x) +
    (p.finish.y - p.start.y) * (q.finish.y - q.start.y)) / q.finish.squaredDistance q.start, ?_, ?_⟩
  · rw [← mul_div_assoc, eq_div_iff hlength, Coord.squaredDistance]
    linear_combination (q.finish.y - q.start.y) * hdet
  · rw [← mul_div_assoc, eq_div_iff hlength, Coord.squaredDistance]
    linear_combination (-(q.finish.x - q.start.x)) * hdet

/-- Unless two segments share a point and are not parallel, one can move along their lines until one
of the two points has left its segment, with the difference of the points kept or gone. -/
theorem exists_target (h : p.det q = 0 ∨ ¬p.Meets q) (ht : IsPart t) (u : Rat) : ∃ t' u' k,
    ¬(IsPart t' ∧ IsPart u') ∧ IsPart k ∧ (p.gap q t' u').x = k * (p.gap q t u).x ∧
      (p.gap q t' u').y = k * (p.gap q t u).y := by
  by_cases hdet : p.det q = 0
  · by_cases hq : q.finish = q.start
    · -- The second segment is a single point, wherever one moves along it.
      refine ⟨t, 2, 1, fun hpart => absurd hpart.2.2 (by norm_num), isPart_one, ?_, ?_⟩
      · rw [gap_x, gap_x, hq]
        ring
      · rw [gap_y, gap_y, hq]
        ring
    · -- Both points move by the same vector, twice the first segment.
      obtain ⟨k, hx, hy⟩ := exists_multiple hdet hq
      refine ⟨t + 2, u + 2 * k, 1, fun hpart => ?_, isPart_one, ?_, ?_⟩
      · have hhigh := hpart.1.2
        have hlow := ht.1
        linarith
      · rw [gap_x, gap_x, hx]
        ring
      · rw [gap_y, gap_y, hy]
        ring
  · -- The lines meet, but not on both segments.
    have hmeet : p.pointAt (p.partAt q) = q.pointAt (q.partAt p) := pointAt_partAt hdet
    obtain ⟨hx, hy⟩ := pointAt_eq_iff.mp hmeet
    refine ⟨p.partAt q, q.partAt p, 0, ?_, isPart_zero, ?_, ?_⟩
    · rintro ⟨hp, hq⟩
      refine (h.resolve_left hdet) ⟨_, p.holds_pointAt hp, ?_⟩
      rw [hmeet]
      exact q.holds_pointAt hq
    · rw [gap_x, hx, pointAt_x, sub_self, zero_mul]
    · rw [gap_y, hy, pointAt_y, sub_self, zero_mul]

/-- Of two segments that share no point or are parallel, an end of one and a point of the other are
as close as any two points. -/
theorem exists_end_le (h : p.det q = 0 ∨ ¬p.Meets q) (hx : p.Holds x) (hy : q.Holds y) :
    (∃ e, p.HasEnd e ∧ e.squaredDistance (q.closestTo e) ≤ x.squaredDistance y) ∨
      ∃ e, q.HasEnd e ∧ (p.closestTo e).squaredDistance e ≤ x.squaredDistance y := by
  obtain ⟨t, ht, rfl⟩ := hx
  obtain ⟨u, hu, rfl⟩ := hy
  obtain ⟨t', u', k, hout, hk, hgapx, hgapy⟩ := exists_target h ht u
  obtain ⟨l, hl, htpart, hupart, hend⟩ := exists_leave ht hu hout
  rw [gap_x, gap_x] at hgapx
  rw [gap_y, gap_y] at hgapy
  -- On the way the difference shrinks evenly.
  have hfactor : IsPart (1 + l * (k - 1)) := isPart_one.between hk hl
  have hcloser : (p.pointAt (t + l * (t' - t))).squaredDistance (q.pointAt (u + l * (u' - u))) ≤
      (p.pointAt t).squaredDistance (q.pointAt u) := by
    apply Coord.squaredDistance_le_of_scaled hfactor.1 hfactor.2
    · simp only [pointAt_x]
      linear_combination l * hgapx
    · simp only [pointAt_y]
      linear_combination l * hgapy
  rcases hend with hend | hend
  · exact Or.inl ⟨_, hend.hasEnd, (closestTo_le _ (q.holds_pointAt hupart)).trans hcloser⟩
  · refine Or.inr ⟨_, hend.hasEnd, ?_⟩
    rw [Coord.squaredDistance_comm]
    refine (closestTo_le _ (p.holds_pointAt htpart)).trans ?_
    rw [Coord.squaredDistance_comm]
    exact hcloser

/-- Segments share no point when their boxes share none. -/
theorem not_meets_of_boxes (h : max p.start.x p.finish.x < min q.start.x q.finish.x ∨
    max q.start.x q.finish.x < min p.start.x p.finish.x ∨
    max p.start.y p.finish.y < min q.start.y q.finish.y ∨
    max q.start.y q.finish.y < min p.start.y p.finish.y) : ¬p.Meets q := by
  rintro ⟨c, hp, hq⟩
  obtain ⟨⟨hplow, hphigh⟩, hplow', hphigh'⟩ := hp.within
  obtain ⟨⟨hqlow, hqhigh⟩, hqlow', hqhigh'⟩ := hq.within
  rcases h with h | h | h | h <;> linarith

end Segment

/-- The pair that is kept at the end is one of those tried, and none of them is closer. -/
theorem Pair.foldl_closer_spec {ps : List (Pair Rat)} {acc : Option (Pair Rat)} {m : Pair Rat}
    (h : ps.foldl closer acc = some m) : (m ∈ ps ∨ acc = some m) ∧
      (∀ p ∈ ps, m.squaredDistance ≤ p.squaredDistance) ∧
      ∀ best, acc = some best → m.squaredDistance ≤ best.squaredDistance := by
  induction ps generalizing acc with
  | nil =>
    refine ⟨Or.inr h, nofun, fun best hbest => ?_⟩
    rw [List.foldl_nil, hbest, Option.some_inj] at h
    exact h ▸ le_rfl
  | cons p ps ih =>
    rw [List.foldl_cons] at h
    obtain ⟨hmem, hrest, hkept⟩ := ih h
    -- What is kept after the first pair is that pair or, where it is no closer, the one before.
    have hfirst : closer acc p = some p ∧
          (∀ best, acc = some best → p.squaredDistance ≤ best.squaredDistance) ∨
        closer acc p = acc ∧ ∃ best, acc = some best ∧
          best.squaredDistance ≤ p.squaredDistance := by
      cases acc with
      | none => exact Or.inl ⟨rfl, nofun⟩
      | some best =>
        rw [closer]
        split
        · next hlt =>
          refine Or.inl ⟨rfl, fun best' hbest => ?_⟩
          rw [← Option.some_inj.mp hbest]
          exact le_of_lt hlt
        · next hnot => exact Or.inr ⟨rfl, best, rfl, not_lt.mp hnot⟩
    rcases hfirst with ⟨hnew, hcloser⟩ | ⟨hold, best, hbest, hcloser⟩
    · have hle : m.squaredDistance ≤ p.squaredDistance := hkept p hnew
      refine ⟨Or.inl ?_, List.forall_mem_cons.mpr ⟨hle, hrest⟩, fun best hbest =>
        hle.trans (hcloser best hbest)⟩
      rcases hmem with hmem | hmem
      · exact List.mem_cons_of_mem p hmem
      · rw [hnew, Option.some_inj] at hmem
        rw [hmem]
        exact List.mem_cons_self
    · rw [hold] at hmem hkept
      have hle : m.squaredDistance ≤ best.squaredDistance := hkept best hbest
      exact ⟨hmem.imp_left (List.mem_cons_of_mem p),
        List.forall_mem_cons.mpr ⟨hle.trans hcloser, hrest⟩, hkept⟩

namespace Geometry

section

variable {S : Type} [Scalar S] (a b : Geometry S) {m : Pair S}

theorem mem_vertexPairs : m ∈ a.vertexPairs b ↔
    (∃ p ∈ a.coords, ∃ s ∈ b.segments, ⟨p, s.closestTo p⟩ = m) ∨
      ∃ q ∈ b.coords, ∃ s ∈ a.segments, ⟨s.closestTo q, q⟩ = m := by
  simp only [vertexPairs, List.mem_append, List.mem_flatMap, List.mem_map]

/-- A covered vertex, or else a crossing: a point that the geometries share. -/
def sharedPoint : Option (Coord S) := a.coveredVertex b <|> b.coveredVertex a <|> a.firstCrossing b

theorem nearestPair_eq (ha : a.coords ≠ []) (hb : b.coords ≠ []) : a.nearestPair b =
    match a.sharedPoint b with
    | some c => some ⟨c, c⟩
    | none => (a.vertexPairs b).foldl Pair.closer none := by
  have hsome : ¬(a.isEmpty || b.isEmpty) = true := by
    rw [Bool.or_eq_true, isEmpty_iff, isEmpty_iff]
    exact not_or.mpr ⟨ha, hb⟩
  rw [nearestPair, if_neg hsome]
  rfl

end

variable {a b : Geometry Rat} {c x y : Coord Rat}

/-- The point lies on a segment that the geometry consists of or is bounded by. -/
def Outline (g : Geometry Rat) (c : Coord Rat) : Prop := ∃ s ∈ g.segments, s.Holds c

theorem outline_of_mem_coords {g : Geometry Rat} (hc : c ∈ g.coords) : g.Outline c := by
  obtain ⟨s, hs, hend⟩ := (endAt_segments g c).mp hc
  exact ⟨s, hs, hend.holds⟩

theorem coveredVertex_eq_none : a.coveredVertex b = none ↔ ∀ c ∈ a.coords, b.covers c = false := by
  simp only [coveredVertex, List.find?_eq_none, Bool.not_eq_true]

theorem firstCrossing_eq_none : a.firstCrossing b = none ↔
    ∀ p ∈ a.segments, ∀ q ∈ b.segments, p.crossing q = none := by
  simp only [firstCrossing, List.findSome?_eq_none_iff]

theorem sharedPoint_eq_none : a.sharedPoint b = none ↔ (∀ c ∈ a.coords, b.covers c = false) ∧
    (∀ c ∈ b.coords, a.covers c = false) ∧
    ∀ p ∈ a.segments, ∀ q ∈ b.segments, p.crossing q = none := by
  rw [sharedPoint, Option.orElse_eq_none, Option.orElse_eq_none, coveredVertex_eq_none,
    coveredVertex_eq_none, firstCrossing_eq_none]

/-- The pairs that are tried lie on the two geometries. -/
theorem outline_of_mem_vertexPairs {m : Pair Rat} (h : m ∈ a.vertexPairs b) :
    a.Outline m.first ∧ b.Outline m.second := by
  rcases (mem_vertexPairs a b).mp h with ⟨p, hp, s, hs, rfl⟩ | ⟨q, hq, s, hs, rfl⟩
  · exact ⟨outline_of_mem_coords hp, s, hs, s.holds_closestTo p⟩
  · exact ⟨⟨s, hs, s.holds_closestTo q⟩, outline_of_mem_coords hq⟩

/-- Geometries with vertices are found to share a point, or the best of the pairs that are tried is
returned. -/
theorem nearestPair_cases (ha : a.coords ≠ []) (hb : b.coords ≠ []) :
    (∃ c, a.sharedPoint b = some c ∧ a.nearestPair b = some ⟨c, c⟩) ∨
      a.sharedPoint b = none ∧ ∃ m ∈ a.vertexPairs b, a.nearestPair b = some m ∧
        ∀ m' ∈ a.vertexPairs b, m.squaredDistance ≤ m'.squaredDistance := by
  have heq := nearestPair_eq a b ha hb
  cases hshared : a.sharedPoint b with
  | some c => exact Or.inl ⟨c, rfl, by rw [heq, hshared]⟩
  | none =>
    rw [hshared] at heq
    have hsome : a.nearestPair b ≠ none := by
      rw [ne_eq, nearestPair_eq_none_iff]
      exact not_or.mpr ⟨ha, hb⟩
    obtain ⟨m, hm⟩ := Option.ne_none_iff_exists'.mp hsome
    obtain ⟨hmem, hleast, -⟩ := Pair.foldl_closer_spec (heq.symm.trans hm)
    exact Or.inr ⟨rfl, m, hmem.resolve_right nofun, hm, hleast⟩

/-- Among the pairs that are tried is one as close as two points of segments that share no point or
are parallel. -/
theorem exists_vertexPair_le {p q : Segment Rat} (hp : p ∈ a.segments) (hq : q ∈ b.segments)
    (h : p.det q = 0 ∨ ¬p.Meets q) (hx : p.Holds x) (hy : q.Holds y) :
    ∃ m ∈ a.vertexPairs b, m.squaredDistance ≤ x.squaredDistance y := by
  rcases Segment.exists_end_le h hx hy with ⟨e, he, hle⟩ | ⟨e, he, hle⟩
  · exact ⟨⟨e, q.closestTo e⟩,
      (mem_vertexPairs a b).mpr (Or.inl ⟨e, mem_coords_of_hasEnd hp he, q, hq, rfl⟩), hle⟩
  · exact ⟨⟨p.closestTo e, e⟩,
      (mem_vertexPairs a b).mpr (Or.inr ⟨e, mem_coords_of_hasEnd hq he, p, hp, rfl⟩), hle⟩

/-- Of two geometries whose segments share no point, and neither of which covers a vertex of the
other, the closest pair is the closest of all pairs of points on their segments. -/
theorem nearestPair_of_separated (a b : Geometry Rat) (ha : a.coords ≠ []) (hb : b.coords ≠ [])
    (hab : ∀ c ∈ a.coords, b.covers c = false) (hba : ∀ c ∈ b.coords, a.covers c = false)
    (hapart : ∀ c, a.Outline c → ¬b.Outline c) :
    ∃ m, a.nearestPair b = some m ∧ a.Outline m.first ∧ b.Outline m.second ∧
      ∀ x y, a.Outline x → b.Outline y →
        m.squaredDistance ≤ (⟨x, y⟩ : Pair Rat).squaredDistance := by
  have hmeets : ∀ p ∈ a.segments, ∀ q ∈ b.segments, ¬p.Meets q := by
    rintro p hp q hq ⟨c, hpc, hqc⟩
    exact hapart c ⟨p, hp, hpc⟩ ⟨q, hq, hqc⟩
  have hnone : a.sharedPoint b = none :=
    sharedPoint_eq_none.mpr ⟨hab, hba, fun p hp q hq =>
      Segment.crossing_eq_none.mpr fun _ => hmeets p hp q hq⟩
  rcases nearestPair_cases ha hb with ⟨c, hshared, -⟩ | ⟨-, m, hmem, hm, hleast⟩
  · rw [hnone] at hshared
    cases hshared
  · obtain ⟨hfirst, hsecond⟩ := outline_of_mem_vertexPairs hmem
    refine ⟨m, hm, hfirst, hsecond, ?_⟩
    rintro x y ⟨p, hp, hx⟩ ⟨q, hq, hy⟩
    obtain ⟨m', hm', hle⟩ := exists_vertexPair_le hp hq (Or.inr (hmeets p hp q hq)) hx hy
    exact (hleast m' hm').trans hle

/-- A square with a square hole. -/
def frame : Geometry Rat :=
  .polygon ⟨⟨[⟨0, 0⟩, ⟨10, 0⟩, ⟨10, 10⟩, ⟨0, 10⟩]⟩, [⟨[⟨2, 2⟩, ⟨2, 8⟩, ⟨8, 8⟩, ⟨8, 2⟩]⟩]⟩

/-- A path and a point that fit into the hole. -/
def inlay : Geometry Rat :=
  .collection [.lineString [⟨4, 4⟩, ⟨6, 4⟩, ⟨6, 5⟩], .collection [.point ⟨5, 7⟩]]

/-- The point in the hole is closer to the frame than the path is. -/
theorem frame_and_inlay_apart :
    ∃ m, frame.nearestPair inlay = some m ∧ frame.Outline m.first ∧ inlay.Outline m.second ∧
      ∀ x y, frame.Outline x → inlay.Outline y →
        m.squaredDistance ≤ (⟨x, y⟩ : Pair Rat).squaredDistance := by
  apply nearestPair_of_separated frame inlay
  · decide
  · decide
  · decide +kernel
  · decide +kernel
  · rintro c ⟨p, hp, hpc⟩ ⟨q, hq, hqc⟩
    have hboxes : ∀ p ∈ frame.segments, ∀ q ∈ inlay.segments,
        max p.start.x p.finish.x < min q.start.x q.finish.x ∨
          max q.start.x q.finish.x < min p.start.x p.finish.x ∨
          max p.start.y p.finish.y < min q.start.y q.finish.y ∨
          max q.start.y q.finish.y < min p.start.y p.finish.y := by decide +kernel
    exact Segment.not_meets_of_boxes (hboxes p hp q hq) ⟨c, hpc, hqc⟩

example : (frame.nearestPair inlay).map Pair.squaredDistance = some 1 := by decide +kernel

end Geometry

end DensityClustering
