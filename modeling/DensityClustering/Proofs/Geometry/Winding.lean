import DensityClustering.Proofs.Geometry.SegmentPoints

/-!
Winding numbers along a path. What an edge counts for a point changes while the point moves only
where the edge starts or ends on the point's right; in a closed ring what one edge loses there the
next one gains. So all points of a segment that meets no edge have the same position.
-/

namespace DensityClustering

open Hull (cross_eq)

namespace Ring

variable {c d : Coord Rat} {e : Segment Rat}

/-- One where the way from `a` to `b` rises past `c` on its right. -/
def rise (c a b : Coord Rat) : Int :=
  if a.y ≤ c.y ∧ c.y < b.y ∧ 0 < cross a b c then 1 else 0

/-- What an edge counts for a point that does not lie on it. -/
def share (c : Coord Rat) (e : Segment Rat) : Int :=
  rise c e.start e.finish - rise c e.finish e.start

theorem windingOf_eq (hoff : ¬e.Holds c) : windingOf c e = some (share c e) := by
  have hback : cross e.finish e.start c = -cross e.start e.finish c := by
    simp only [cross_eq]
    ring
  -- On the line of the edge and as high as one of its points, `c` would lie on it.
  have houtside : cross e.start e.finish c = 0 →
      min e.start.y e.finish.y ≤ c.y ∧ c.y ≤ max e.start.y e.finish.y →
      isBetween c.x e.start.x e.finish.x = false := by
    intro hline hy
    by_contra hx
    apply hoff
    rw [← Segment.contains_iff, Segment.contains, Hull.turn_eq_straight.mpr hline,
      Hull.isBetween_iff.mpr hy, (Bool.not_eq_false _).mp hx]
    rfl
  unfold windingOf share rise
  rw [hback, Hull.turn_eq]
  grind

/-- Where all edges miss the point, their shares add up to the winding number. -/
theorem winding_eq {es : List (Segment Rat)} (hoff : ∀ e ∈ es, ¬e.Holds c) :
    winding c es = some (es.map (share c)).sum := by
  induction es with
  | nil => rfl
  | cons e es ih =>
    obtain ⟨hfirst, hrest⟩ := List.forall_mem_cons.mp hoff
    rw [winding, windingOf_eq hfirst, ih hrest, List.map_cons, List.sum_cons]
    rfl

/-- One where `v` is passed on the right on the way up from `c` to `d`. -/
def pass (c d v : Coord Rat) : Int :=
  if c.y < v.y ∧ v.y ≤ d.y ∧ cross c d v < 0 then 1 else 0

/-- A segment that rises has a point at every height between its ends. What is left of that point
is on the left of the segment, and likewise on the right. -/
theorem exists_at_height {a b u : Coord Rat} (hrise : a.y < b.y) (hlow : a.y ≤ u.y)
    (hhigh : u.y ≤ b.y) :
    ∃ p, Segment.Holds ⟨a, b⟩ p ∧ p.y = u.y ∧ (0 < cross a b u ↔ u.x < p.x) ∧
      (cross a b u < 0 ↔ p.x < u.x) := by
  have hpos : 0 < b.y - a.y := sub_pos.mpr hrise
  have hheight : (b.y - a.y) * ((u.y - a.y) / (b.y - a.y)) = u.y - a.y :=
    mul_div_cancel₀ _ hpos.ne'
  have hpart : Segment.IsPart ((u.y - a.y) / (b.y - a.y)) :=
    ⟨div_nonneg (sub_nonneg.mpr hlow) hpos.le, (div_le_one hpos).mpr (sub_le_sub_right hhigh _)⟩
  have hside : cross a b u =
      (b.y - a.y) * ((Segment.pointAt ⟨a, b⟩ ((u.y - a.y) / (b.y - a.y))).x - u.x) := by
    rw [Segment.pointAt_x, cross_eq]
    linear_combination (-(b.x - a.x)) * hheight
  refine ⟨_, Segment.holds_pointAt ⟨a, b⟩ hpart, ?_, ?_, ?_⟩
  · rw [Segment.pointAt_y, hheight, add_sub_cancel]
  · rw [hside, mul_pos_iff_of_pos_left hpos, sub_pos]
  · rw [hside, ← neg_pos, ← mul_neg, mul_pos_iff_of_pos_left hpos, neg_sub, sub_pos]

/-- Two segments that share no point keep their order from left to right. -/
theorem left_iff_left {f : Segment Rat} {p p' q q' : Coord Rat} (hapart : ¬f.Meets e)
    (hp : e.Holds p) (hp' : e.Holds p') (hq : f.Holds q) (hq' : f.Holds q') (hlevel : p.y = q.y)
    (hlevel' : p'.y = q'.y) : q.x < p.x ↔ q'.x < p'.x := by
  -- Two pairs of level points in different orders have a common point between them.
  have hkeep : ∀ {p p' q q' : Coord Rat}, e.Holds p → e.Holds p' → f.Holds q → f.Holds q' →
      p.y = q.y → p'.y = q'.y → q.x < p.x → q'.x < p'.x := by
    intro p p' q q' hp hp' hq hq' hlevel hlevel' hlt
    by_contra hnot
    have hgap : 0 < p.x - q.x + (q'.x - p'.x) := by linarith
    have hpart : Segment.IsPart ((p.x - q.x) / (p.x - q.x + (q'.x - p'.x))) := by
      refine ⟨div_nonneg (by linarith) hgap.le, (div_le_one hgap).mpr ?_⟩
      linarith
    have hmeet : (p.x - q.x + (q'.x - p'.x)) * ((p.x - q.x) / (p.x - q.x + (q'.x - p'.x))) =
        p.x - q.x := mul_div_cancel₀ _ hgap.ne'
    have hsame : Segment.pointAt ⟨p, p'⟩ ((p.x - q.x) / (p.x - q.x + (q'.x - p'.x))) =
        Segment.pointAt ⟨q, q'⟩ ((p.x - q.x) / (p.x - q.x + (q'.x - p'.x))) := by
      rw [Segment.pointAt_eq_iff, Segment.pointAt_x, Segment.pointAt_y]
      constructor
      · linear_combination -hmeet
      · rw [hlevel, hlevel']
    refine hapart ⟨_, hq.subsegment hq' (Segment.holds_pointAt ⟨q, q'⟩ hpart), ?_⟩
    rw [← hsame]
    exact hp.subsegment hp' (Segment.holds_pointAt ⟨p, p'⟩ hpart)
  exact ⟨hkeep hp hp' hq hq' hlevel hlevel', hkeep hp' hp hq' hq hlevel' hlevel⟩

section Rising

variable {a b : Coord Rat}

/-- What an edge counts at the lower end of the path, or its start is passed for, is told by the
order of two points as high as each other. -/
theorem rise_add_pass_start (hlow : c.y < b.y) (hhigh : a.y ≤ d.y) :
    ∃ p q, Segment.Holds ⟨a, b⟩ p ∧ Segment.Holds ⟨c, d⟩ q ∧ p.y = q.y ∧
      rise c a b + pass c d a = if q.x < p.x then 1 else 0 := by
  rcases le_or_gt a.y c.y with hstart | hstart
  · have hrise : a.y < b.y := hstart.trans_lt hlow
    obtain ⟨p, hp, hlevel, hleft, -⟩ := exists_at_height hrise hstart hlow.le
    have hpass : pass c d a = 0 := if_neg fun h => hstart.not_gt h.1
    refine ⟨p, c, hp, Segment.holds_start ⟨c, d⟩, hlevel, ?_⟩
    rw [hpass, add_zero, rise]
    simp only [hstart, hlow, hleft, true_and]
  · have hrise : c.y < d.y := hstart.trans_le hhigh
    obtain ⟨q, hq, hlevel, -, hright⟩ := exists_at_height hrise hstart.le hhigh
    have hcount : rise c a b = 0 := if_neg fun h => hstart.not_ge h.1
    refine ⟨a, q, Segment.holds_start ⟨a, b⟩, hq, hlevel.symm, ?_⟩
    rw [hcount, zero_add, pass]
    simp only [hstart, hhigh, hright, true_and]

/-- The same at the upper end. -/
theorem rise_add_pass_finish (hlow : c.y < b.y) (hhigh : a.y ≤ d.y) :
    ∃ p q, Segment.Holds ⟨a, b⟩ p ∧ Segment.Holds ⟨c, d⟩ q ∧ p.y = q.y ∧
      rise d a b + pass c d b = if q.x < p.x then 1 else 0 := by
  rcases lt_or_ge d.y b.y with hfinish | hfinish
  · have hrise : a.y < b.y := hhigh.trans_lt hfinish
    obtain ⟨p, hp, hlevel, hleft, -⟩ := exists_at_height hrise hhigh hfinish.le
    have hpass : pass c d b = 0 := if_neg fun h => hfinish.not_ge h.2.1
    refine ⟨p, d, hp, Segment.holds_finish ⟨c, d⟩, hlevel, ?_⟩
    rw [hpass, add_zero, rise]
    simp only [hfinish, hhigh, hleft, true_and]
  · have hrise : c.y < d.y := hlow.trans_le hfinish
    obtain ⟨q, hq, hlevel, -, hright⟩ := exists_at_height hrise hlow.le hfinish
    have hcount : rise d a b = 0 := if_neg fun h => hfinish.not_gt h.2.1
    refine ⟨b, q, Segment.holds_finish ⟨a, b⟩, hq, hlevel.symm, ?_⟩
    rw [hcount, zero_add, pass]
    simp only [hfinish, hlow, hright, true_and]

/-- What an edge that does not fall counts changes on the way up by what is passed of its ends. -/
theorem rise_add_pass (hcd : c.y ≤ d.y) (hab : a.y ≤ b.y)
    (hapart : ¬Segment.Meets ⟨c, d⟩ ⟨a, b⟩) :
    rise c a b + pass c d a = rise d a b + pass c d b := by
  by_cases hover : c.y < b.y ∧ a.y ≤ d.y
  · obtain ⟨hlow, hhigh⟩ := hover
    obtain ⟨p, q, hp, hq, hlevel, hstart⟩ := rise_add_pass_start hlow hhigh
    obtain ⟨p', q', hp', hq', hlevel', hfinish⟩ := rise_add_pass_finish hlow hhigh
    rw [hstart, hfinish]
    simp only [left_iff_left hapart hp hp' hq hq' hlevel hlevel']
  · -- The edge is below the path or above it.
    rw [not_and_or, not_lt, not_le] at hover
    have hnone : rise c a b = 0 ∧ pass c d a = 0 ∧ rise d a b = 0 ∧ pass c d b = 0 := by
      refine ⟨if_neg ?_, if_neg ?_, if_neg ?_, if_neg ?_⟩ <;>
        · rintro ⟨hlow, hhigh, -⟩
          rcases hover with hbelow | habove <;> linarith
    obtain ⟨hc, ha, hd, hb⟩ := hnone
    rw [hc, ha, hd, hb]

theorem rise_of_falling (hab : a.y ≤ b.y) : rise c b a = 0 :=
  if_neg fun h => (h.1.trans_lt h.2.1).not_ge hab

end Rising

theorem share_add_pass (hcd : c.y ≤ d.y) (hapart : ¬Segment.Meets ⟨c, d⟩ e) :
    share c e + pass c d e.start = share d e + pass c d e.finish := by
  rw [share, share]
  rcases le_total e.start.y e.finish.y with hrise | hfall
  · rw [rise_of_falling hrise, rise_of_falling hrise, sub_zero, sub_zero]
    exact rise_add_pass hcd hrise hapart
  · have hback : ¬Segment.Meets ⟨c, d⟩ ⟨e.finish, e.start⟩ :=
      fun ⟨v, hpath, hedge⟩ => hapart ⟨v, hpath, hedge.backwards⟩
    have hturned := rise_add_pass hcd hfall hback
    rw [rise_of_falling hfall, rise_of_falling hfall]
    omega

/-- Along a path of edges all that is passed between its ends cancels. -/
theorem sum_share_add_pass (hcd : c.y ≤ d.y) (v : Coord Rat) (vs : List (Coord Rat))
    (hapart : ∀ e ∈ Segment.chain (v :: vs), ¬Segment.Meets ⟨c, d⟩ e) :
    ((Segment.chain (v :: vs)).map (share c)).sum + pass c d v =
      ((Segment.chain (v :: vs)).map (share d)).sum + pass c d (vs.getLastD v) := by
  induction vs generalizing v with
  | nil => rfl
  | cons w vs ih =>
    rw [Segment.chain] at hapart ⊢
    obtain ⟨hfirst, hrest⟩ := List.forall_mem_cons.mp hapart
    have hstep := share_add_pass hcd hfirst
    have htail := ih w hrest
    rw [List.map_cons, List.map_cons, List.sum_cons, List.sum_cons, List.getLastD_cons]
    dsimp only at hstep
    omega

/-- The first vertex comes again at the end. -/
theorem closed_ends (r : Ring Rat) {v : Coord Rat} {vs : List (Coord Rat)}
    (h : r.closed = v :: vs) : vs.getLastD v = v := by
  obtain ⟨vertices⟩ := r
  match vertices with
  | [] => cases h
  | u :: us =>
    have hclosed : Ring.closed (⟨u :: us⟩ : Ring Rat) =
        if u.coincides (us.getLastD u) then u :: us else u :: us ++ [u] := by
      rw [closed, List.head?_cons, List.getLast?_cons, ← List.getLastD_eq_getLast?]
    rw [hclosed] at h
    split at h
    · next hsame =>
      obtain ⟨rfl, rfl⟩ := List.cons.inj h
      exact (Coord.coincides_iff.mp hsame).symm
    · obtain ⟨rfl, rfl⟩ := List.cons.inj h
      exact List.getLastD_concat

/-- A path that meets no edge of a ring does not leave the place where it starts. -/
theorem position_eq_of_rising {r : Ring Rat} (hcd : c.y ≤ d.y)
    (hapart : ∀ e ∈ Segment.path r.closed, ¬Segment.Meets ⟨c, d⟩ e) :
    r.position c = r.position d := by
  have hstart : ∀ e ∈ Segment.path r.closed, ¬e.Holds c :=
    fun e he hon => hapart e he ⟨c, Segment.holds_start ⟨c, d⟩, hon⟩
  have hfinish : ∀ e ∈ Segment.path r.closed, ¬e.Holds d :=
    fun e he hon => hapart e he ⟨d, Segment.holds_finish ⟨c, d⟩, hon⟩
  unfold position
  match hclosed : r.closed with
  | [] => rfl
  | [p] =>
    have hpoint : Segment.path [p] = [⟨p, p⟩] := rfl
    rw [hclosed, hpoint] at hstart hfinish
    have hoff : ∀ u, ¬Segment.Holds ⟨p, p⟩ u → ¬u.coincides p = true := by
      intro u hnot hsame
      rw [Coord.coincides_iff.mp hsame] at hnot
      exact hnot (Segment.holds_start ⟨p, p⟩)
    dsimp only
    rw [if_neg (hoff c (hstart _ List.mem_cons_self)), if_neg (hoff d (hfinish _ List.mem_cons_self))]
  | v :: w :: vs =>
    have hpath : Segment.path (v :: w :: vs) = Segment.chain (v :: w :: vs) := rfl
    rw [hclosed, hpath] at hapart hstart hfinish
    have hsum := sum_share_add_pass hcd v (w :: vs) hapart
    rw [closed_ends r hclosed] at hsum
    have hwinding : winding c (Segment.chain (v :: w :: vs)) =
        winding d (Segment.chain (v :: w :: vs)) := by
      rw [winding_eq hstart, winding_eq hfinish, add_right_cancel hsum]
    dsimp only
    rw [hwinding]

theorem position_eq {r : Ring Rat}
    (hapart : ∀ e ∈ Segment.path r.closed, ¬Segment.Meets ⟨c, d⟩ e) :
    r.position c = r.position d := by
  rcases le_total c.y d.y with hrise | hfall
  · exact position_eq_of_rising hrise hapart
  · refine (position_eq_of_rising hfall fun e he => ?_).symm
    rintro ⟨v, hpath, hedge⟩
    exact hapart e he ⟨v, hpath.backwards, hedge⟩

end Ring

end DensityClustering
