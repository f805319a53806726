import Mathlib.Data.List.Chain
import Mathlib.Data.List.Triplewise
import Mathlib.Data.Finset.Max
import Mathlib.Data.Prod.Lex
import Mathlib.Tactic.LinearCombination
import DensityClustering.Geometry.Cover
import DensityClustering.Proofs.Geometry.Orientation

/-!
Rings that go round once, turning left at every vertex. A point that lies to the right of none of
the edges is covered: either it is on the boundary, or an edge rises past it on the right-hand side
and none falls past it there, so that the ring winds round it.
-/

namespace DensityClustering

namespace Segment

variable {S : Type}

/-- The segments of a path lead from each of its points to the next. -/
theorem mem_chain_iff {e : Segment S} :
    ∀ {ps : List (Coord S)}, e ∈ chain ps ↔ ∃ i, ps[i]? = some e.start ∧ ps[i + 1]? = some e.finish
  | [] => iff_of_false List.not_mem_nil (by rintro ⟨i, h, -⟩; cases h)
  | [_] => iff_of_false List.not_mem_nil (by rintro ⟨i, -, h⟩; cases h)
  | a :: b :: rest => by
    rw [chain, List.mem_cons, mem_chain_iff]
    constructor
    · rintro (rfl | ⟨i, hstart, hfinish⟩)
      · exact ⟨0, rfl, rfl⟩
      · exact ⟨i + 1, hstart, hfinish⟩
    · rintro ⟨i, hstart, hfinish⟩
      cases i with
      | zero =>
        obtain ⟨start, finish⟩ := e
        cases hstart
        cases hfinish
        exact Or.inl rfl
      | succ i => exact Or.inr ⟨i, hstart, hfinish⟩

/-- What holds along a path holds of each of its segments. -/
theorem isChain_iff {R : Coord S → Coord S → Prop} :
    ∀ {ps : List (Coord S)}, ps.IsChain R ↔ ∀ e ∈ chain ps, R e.start e.finish
  | [] => iff_of_true .nil nofun
  | [p] => iff_of_true (.singleton p) nofun
  | a :: b :: rest => by rw [chain, List.isChain_cons_cons, List.forall_mem_cons, isChain_iff]

theorem map_start_chain : ∀ ps : List (Coord S), (chain ps).map start = ps.dropLast
  | [] => rfl
  | [_] => rfl
  | a :: b :: rest => by
    rw [chain, List.map_cons, map_start_chain (b :: rest), List.dropLast_cons_cons]

theorem map_finish_chain : ∀ ps : List (Coord S), (chain ps).map finish = ps.tail
  | [] => rfl
  | [_] => rfl
  | a :: b :: rest => by
    rw [chain, List.map_cons, map_finish_chain (b :: rest)]
    rfl

end Segment

def Ring.edges {S : Type} [Scalar S] (r : Ring S) : List (Segment S) := Segment.chain r.closed

theorem Coord.coincides_iff {a b : Coord Rat} : a.coincides b = true ↔ a = b := by
  obtain ⟨ax, ay⟩ := a
  obtain ⟨bx, bY⟩ := b
  show (decide (ax = bx) && decide (ay = bY)) = true ↔ _
  rw [Bool.and_eq_true, decide_eq_true_eq, decide_eq_true_eq, Coord.mk.injEq]

namespace Hull

variable {ring : List (Coord Rat)} {a b c u v w : Coord Rat}

/-- A ring of vertices that turns left at every vertex and goes round once: any three vertices, as
they come, turn left. -/
structure IsConvex (ring : List (Coord Rat)) : Prop where
  long : 3 ≤ ring.length
  nodup : ring.Nodup
  round : ring.Triplewise Turn

namespace IsConvex

/-- The first vertex comes once more at the end. -/
theorem exists_closed_eq (h : IsConvex ring) :
    ∃ first, ring.head? = some first ∧ (⟨ring⟩ : Ring Rat).closed = ring ++ [first] := by
  obtain ⟨hlong, hnodup, -⟩ := h
  match ring, hlong, hnodup with
  | a :: b :: rest, _, hnodup =>
    have hrest : b :: rest ≠ [] := nofun
    have hlast : a ≠ (b :: rest).getLast hrest := fun he =>
      (List.nodup_cons.mp hnodup).1 (he ▸ List.getLast_mem _)
    refine ⟨a, rfl, ?_⟩
    unfold Ring.closed
    dsimp only
    rw [List.head?_cons, List.getLast?_cons_cons, List.getLast?_eq_some_getLast hrest]
    dsimp only
    rw [if_neg fun hsame => hlast (Coord.coincides_iff.mp hsame)]

/-- The edges lead from each vertex to the one after it, and from the last one to the first. -/
theorem getElem?_of_mem_edges (h : IsConvex ring) {e : Segment Rat}
    (he : e ∈ (⟨ring⟩ : Ring Rat).edges) :
    ∃ i < ring.length, ring[i]? = some e.start ∧ ring[(i + 1) % ring.length]? = some e.finish := by
  obtain ⟨first, hfirst, hclosed⟩ := h.exists_closed_eq
  rw [Ring.edges, hclosed] at he
  obtain ⟨i, hstart, hfinish⟩ := Segment.mem_chain_iff.mp he
  obtain ⟨hi, -⟩ := List.getElem?_eq_some_iff.mp hfinish
  have hin : i < ring.length := by
    rw [List.length_append, List.length_singleton] at hi
    omega
  rw [List.getElem?_append_left hin] at hstart
  refine ⟨i, hin, hstart, ?_⟩
  rcases Nat.lt_or_eq_of_le (Nat.succ_le_of_lt hin) with hnext | hnext
  · rwa [Nat.mod_eq_of_lt hnext, ← List.getElem?_append_left hnext]
  · rw [show i + 1 = ring.length from hnext] at hfinish ⊢
    rw [List.getElem?_append_right le_rfl, Nat.sub_self] at hfinish
    rw [Nat.mod_self, ← List.head?_eq_getElem?, hfirst]
    exact hfinish

theorem turn_of_lt (h : IsConvex ring) {i j k : Nat} (hij : i < j) (hjk : j < k)
    (ha : ring[i]? = some a) (hb : ring[j]? = some b) (hc : ring[k]? = some c) : Turn a b c := by
  obtain ⟨hi, rfl⟩ := List.getElem?_eq_some_iff.mp ha
  obtain ⟨hj, rfl⟩ := List.getElem?_eq_some_iff.mp hb
  obtain ⟨hk, rfl⟩ := List.getElem?_eq_some_iff.mp hc
  exact List.triplewise_iff_getElem.mp h.round i j k hij hjk hk

/-- The ring turns left where one edge goes over into the next. -/
theorem turn_at (h : IsConvex ring) {e f : Segment Rat} (he : e ∈ (⟨ring⟩ : Ring Rat).edges)
    (hf : f ∈ (⟨ring⟩ : Ring Rat).edges) (hef : e.finish = f.start) :
    Turn e.start e.finish f.finish := by
  have hlong := h.long
  obtain ⟨i, hi, hstart, hmiddle⟩ := h.getElem?_of_mem_edges he
  obtain ⟨j, hj, hmiddle', hfinish⟩ := h.getElem?_of_mem_edges hf
  obtain rfl : j = (i + 1) % ring.length := by
    rw [← hef, ← hmiddle] at hmiddle'
    exact (List.getElem?_inj hj h.nodup).mp hmiddle'
  have hcases : i + 2 < ring.length ∨ i + 2 = ring.length ∨ i + 1 = ring.length := by omega
  rcases hcases with hnext | hnext | hnext
  · rw [Nat.mod_eq_of_lt (show i + 1 < ring.length by omega)] at hmiddle hfinish
    rw [Nat.mod_eq_of_lt hnext] at hfinish
    exact h.turn_of_lt (Nat.lt_succ_self i) (Nat.lt_succ_self (i + 1)) hstart hmiddle hfinish
  · -- The last two vertices and the first one.
    rw [Nat.mod_eq_of_lt (show i + 1 < ring.length by omega)] at hmiddle hfinish
    rw [show i + 1 + 1 = ring.length from hnext, Nat.mod_self] at hfinish
    exact (h.turn_of_lt (by omega) (Nat.lt_succ_self i) hfinish hstart hmiddle).rotate
  · -- The last vertex and the first two.
    rw [hnext, Nat.mod_self] at hmiddle hfinish
    rw [Nat.mod_eq_of_lt (show 0 + 1 < ring.length by omega)] at hfinish
    exact (h.turn_of_lt Nat.one_pos (by omega) hmiddle hfinish hstart).rotate.rotate

end IsConvex

section Level

/-- How high a point lies above a vertex is told by its sides of the two edges there. -/
theorem height_eq (u v w c : Coord Rat) : cross u v w * (c.y - v.y) =
    cross u v c * (w.y - v.y) + cross v w c * (u.y - v.y) := by
  simp only [cross_eq]
  ring

theorem cross_of_level_start (h : c.y = a.y) : cross a b c = (b.y - a.y) * (a.x - c.x) := by
  rw [cross_eq, h]
  ring

theorem cross_of_level_finish (h : c.y = b.y) : cross a b c = (b.y - a.y) * (b.x - c.x) := by
  rw [cross_eq, h]
  ring

/-- To the left of a segment that rises, as high as its end. -/
theorem le_of_rising (hrise : a.y < b.y) (hlevel : c.y = b.y) (hleft : 0 ≤ cross a b c) :
    c.x ≤ b.x := by
  rw [cross_of_level_finish hlevel] at hleft
  exact sub_nonneg.mp ((mul_nonneg_iff_of_pos_left (sub_pos.mpr hrise)).mp hleft)

/-- To the left of a segment that falls, as high as its start. -/
theorem le_of_falling (hfall : b.y < a.y) (hlevel : c.y = a.y) (hleft : 0 ≤ cross a b c) :
    a.x ≤ c.x := by
  rw [cross_of_level_start hlevel] at hleft
  exact sub_nonpos.mp (nonpos_of_mul_nonneg_right hleft (sub_neg.mpr hfall))

/-- A left turn at the rightmost of the highest points is come to from below. -/
theorem rises_of_turn (hturn : Turn u v w) (hw : w.y ≤ v.y)
    (hu : u.y < v.y ∨ u.y = v.y ∧ u.x ≤ v.x) : u.y < v.y := by
  refine hu.resolve_right fun ⟨hlevel, hx⟩ => ?_
  have hcross : 0 < (w.y - v.y) * (v.x - u.x) := by
    rw [← cross_of_level_start hlevel]
    exact hturn.rotate
  have hneg : (w.y - v.y) * (v.x - u.x) ≤ 0 :=
    mul_nonpos_of_nonpos_of_nonneg (sub_nonpos.mpr hw) (sub_nonneg.mpr hx)
  linarith

/-- From the left one of two highest points a left turn leads down. -/
theorem falls_of_turn (hturn : Turn u v w) (hlevel : v.y = u.y) (hx : v.x ≤ u.x) :
    w.y < v.y := by
  have hcross : 0 < (w.y - v.y) * (v.x - u.x) := by
    rw [← cross_of_level_start hlevel.symm]
    exact hturn.rotate
  exact sub_neg.mp (neg_of_mul_pos_left hcross (sub_nonpos.mpr hx))

/-- To the left of both edges at a highest vertex, and no lower: as high, and on the line of the
second edge. If that one falls, it is the vertex. -/
theorem level_of_top (hturn : Turn u v w) (hrise : u.y < v.y) (hw : w.y ≤ v.y) (hc : v.y ≤ c.y)
    (hfirst : 0 ≤ cross u v c) (hsecond : 0 ≤ cross v w c) :
    c.y = v.y ∧ cross v w c = 0 ∧ (w.y = v.y ∨ c.x = v.x) := by
  have hbefore : cross u v c * (w.y - v.y) ≤ 0 :=
    mul_nonpos_of_nonneg_of_nonpos hfirst (sub_nonpos.mpr hw)
  have hafter : cross v w c * (u.y - v.y) ≤ 0 :=
    mul_nonpos_of_nonneg_of_nonpos hsecond (sub_nonpos.mpr hrise.le)
  have hheight := height_eq u v w c
  have hlevel : c.y = v.y := by
    have hturn : 0 < cross u v w := hturn
    have hle : cross u v w * (c.y - v.y) ≤ 0 := by
      rw [hheight]
      exact add_nonpos hbefore hafter
    exact le_antisymm (sub_nonpos.mp (nonpos_of_mul_nonpos_right hle hturn)) hc
  rw [hlevel, sub_self, mul_zero] at hheight
  refine ⟨hlevel, ?_, ?_⟩
  · have hzero : cross v w c * (u.y - v.y) = 0 := by linarith only [hheight, hbefore, hafter]
    exact (mul_eq_zero.mp hzero).resolve_right (sub_neg.mpr hrise).ne
  · have hzero : cross u v c * (w.y - v.y) = 0 := by linarith only [hheight, hbefore, hafter]
    rw [cross_of_level_finish hlevel, mul_eq_zero, mul_eq_zero] at hzero
    rcases hzero with (hflat | hover) | hsame
    · exact absurd hflat (sub_pos.mpr hrise).ne'
    · exact Or.inr (sub_eq_zero.mp hover).symm
    · exact Or.inl (sub_eq_zero.mp hsame)

end Level

section Side

theorem turn_eq (a b c : Coord Rat) : turn a b c =
    if 0 < cross a b c then .counterClockwise
    else if cross a b c < 0 then .clockwise else .straight := by
  have hcross : cross a b c = (a.x - c.x) * (b.y - c.y) - (a.y - c.y) * (b.x - c.x) := by
    rw [cross_eq]
    ring
  rw [hcross]
  simp only [sub_pos, sub_neg]
  rfl

theorem turn_eq_straight : turn a b c = .straight ↔ cross a b c = 0 := by
  rw [turn_eq]
  rcases lt_trichotomy (cross a b c) 0 with h | h | h
  · rw [if_neg h.le.not_gt, if_pos h]
    exact iff_of_false nofun h.ne
  · rw [if_neg h.le.not_gt, if_neg h.ge.not_gt]
    exact iff_of_true rfl h
  · rw [if_pos h]
    exact iff_of_false nofun h.ne'

theorem turn_eq_counterClockwise : turn a b c = .counterClockwise ↔ 0 < cross a b c := by
  rw [turn_eq]
  split
  · next h => exact iff_of_true rfl h
  · next h => split <;> exact iff_of_false nofun h

theorem turn_ne_clockwise (h : 0 ≤ cross a b c) : turn a b c ≠ .clockwise := by
  rw [turn_eq, if_neg (not_lt.mpr h)]
  split <;> exact nofun

theorem isBetween_iff {x y z : Rat} : isBetween x y z = true ↔ min y z ≤ x ∧ x ≤ max y z := by
  unfold isBetween
  split
  · next h =>
    rw [Bool.and_eq_true, decide_eq_true_eq, decide_eq_true_eq, min_eq_left h.le, max_eq_right h.le]
  · next h =>
    rw [Bool.and_eq_true, decide_eq_true_eq, decide_eq_true_eq, min_eq_right (not_lt.mp h),
      max_eq_left (not_lt.mp h)]

/-- On a line, what one coordinate has between the ends, so has the other. -/
theorem isBetween_of_line {p p₀ p₁ q q₀ q₁ : Rat} (h₀ : p₀ ≤ p) (h₁ : p ≤ p₁) (hlt : p₀ < p₁)
    (hline : (p₁ - p₀) * (q - q₀) = (q₁ - q₀) * (p - p₀)) : isBetween q q₀ q₁ = true := by
  have hpos : 0 < p₁ - p₀ := sub_pos.mpr hlt
  have hrest : (p₁ - p₀) * (q₁ - q) = (q₁ - q₀) * (p₁ - p) := by linear_combination -hline
  rw [isBetween_iff]
  rcases le_total q₀ q₁ with h | h
  · have hfirst : 0 ≤ (p₁ - p₀) * (q - q₀) := by
      rw [hline]
      exact mul_nonneg (sub_nonneg.mpr h) (sub_nonneg.mpr h₀)
    have hsecond : 0 ≤ (p₁ - p₀) * (q₁ - q) := by
      rw [hrest]
      exact mul_nonneg (sub_nonneg.mpr h) (sub_nonneg.mpr h₁)
    rw [min_eq_left h, max_eq_right h]
    exact ⟨sub_nonneg.mp ((mul_nonneg_iff_of_pos_left hpos).mp hfirst),
      sub_nonneg.mp ((mul_nonneg_iff_of_pos_left hpos).mp hsecond)⟩
  · have hfirst : (p₁ - p₀) * (q - q₀) ≤ 0 := by
      rw [hline]
      exact mul_nonpos_of_nonpos_of_nonneg (sub_nonpos.mpr h) (sub_nonneg.mpr h₀)
    have hsecond : (p₁ - p₀) * (q₁ - q) ≤ 0 := by
      rw [hrest]
      exact mul_nonpos_of_nonpos_of_nonneg (sub_nonpos.mpr h) (sub_nonneg.mpr h₁)
    rw [min_eq_right h, max_eq_left h]
    exact ⟨sub_nonpos.mp (nonpos_of_mul_nonpos_right hsecond hpos),
      sub_nonpos.mp (nonpos_of_mul_nonpos_right hfirst hpos)⟩

end Side

end Hull

namespace Ring

variable {c : Coord Rat} {e : Segment Rat}

/-- A point on a segment that does not fall is found on it. -/
theorem windingOf_of_on (hlow : e.start.y ≤ c.y) (hhigh : c.y ≤ e.finish.y)
    (hline : cross e.start e.finish c = 0) (hbetween : isBetween c.x e.start.x e.finish.x = true) :
    windingOf c e = none := by
  have hturn : turn e.start e.finish c = .straight := Hull.turn_eq_straight.mpr hline
  unfold windingOf
  simp only [hturn, hbetween, hlow, hhigh, if_true]
  rfl

/-- An edge counts nothing against a point that is not to its right. -/
theorem windingOf_nonneg (hleft : 0 ≤ cross e.start e.finish c) :
    ∀ k, windingOf c e = some k → 0 ≤ k := by
  have hturn : (turn e.start e.finish c == .clockwise) = false :=
    beq_eq_false_iff_ne.mpr (Hull.turn_ne_clockwise hleft)
  intro k hk
  unfold windingOf at hk
  simp only [hturn] at hk
  grind

/-- An edge that rises past a point with the point not on its right counts, or has the point on
it. -/
theorem windingOf_of_rising (hlow : e.start.y ≤ c.y) (hhigh : c.y < e.finish.y)
    (hleft : 0 ≤ cross e.start e.finish c) : ∀ k, windingOf c e = some k → 0 < k := by
  intro k hk
  rcases hleft.eq_or_lt with hline | hturn
  · have hbetween : isBetween c.x e.start.x e.finish.x = true := by
      rw [Hull.cross_eq] at hline
      exact Hull.isBetween_of_line hlow hhigh.le (hlow.trans_lt hhigh)
        (by linear_combination hline)
    rw [windingOf_of_on hlow hhigh.le hline.symm hbetween] at hk
    cases hk
  · have hcounts : windingOf c e = some 1 := by
      have hccw : turn e.start e.finish c = .counterClockwise :=
        Hull.turn_eq_counterClockwise.mpr hturn
      have hne : (e.finish.y == c.y) = false := decide_eq_false hhigh.ne'
      unfold windingOf
      simp only [hccw, hne, hlow, hhigh.le, if_true]
      rfl
    rw [hcounts] at hk
    cases hk
    exact one_pos

theorem winding_cons_eq_some {es : List (Segment Rat)} {k : Int}
    (h : winding c (e :: es) = some k) :
    ∃ i j, windingOf c e = some i ∧ winding c es = some j ∧ i + j = k := by
  simp only [winding, Option.bind_eq_bind, Option.bind_eq_some_iff, Option.pure_def,
    Option.some.injEq] at h
  obtain ⟨i, hi, j, hj, hsum⟩ := h
  exact ⟨i, j, hi, hj, hsum⟩

theorem winding_nonneg {es : List (Segment Rat)}
    (hleft : ∀ e ∈ es, ∀ k, windingOf c e = some k → 0 ≤ k) :
    ∀ k, winding c es = some k → 0 ≤ k := by
  induction es with
  | nil =>
    intro k hk
    cases hk
    exact le_rfl
  | cons e es ih =>
    intro k hk
    obtain ⟨hfirst, hrest⟩ := List.forall_mem_cons.mp hleft
    obtain ⟨i, j, hi, hj, rfl⟩ := winding_cons_eq_some hk
    have := hfirst i hi
    have := ih hrest j hj
    omega

/-- Where no edge counts against a point and one counts for it, or has it on it, the ring winds
round the point or has it on its boundary. -/
theorem winding_pos {es : List (Segment Rat)}
    (hleft : ∀ e ∈ es, ∀ k, windingOf c e = some k → 0 ≤ k)
    (hsome : ∃ e ∈ es, ∀ k, windingOf c e = some k → 0 < k) :
    ∀ k, winding c es = some k → 0 < k := by
  induction es with
  | nil =>
    obtain ⟨e, he, -⟩ := hsome
    cases he
  | cons e es ih =>
    intro k hk
    obtain ⟨hfirst, hrest⟩ := List.forall_mem_cons.mp hleft
    obtain ⟨i, j, hi, hj, rfl⟩ := winding_cons_eq_some hk
    obtain ⟨f, hf, hpos⟩ := hsome
    rcases List.mem_cons.mp hf with rfl | hf
    · have := hpos i hi
      have := winding_nonneg hrest j hj
      omega
    · have := hfirst i hi
      have := ih hrest ⟨f, hf, hpos⟩ j hj
      omega

end Ring

namespace Hull

namespace IsConvex

variable {ring : List (Coord Rat)} {c v : Coord Rat}

/-- Every vertex lies between two edges, at which the ring turns left. -/
theorem exists_edges_at (h : IsConvex ring) (hv : v ∈ ring) :
    ∃ u w, ⟨u, v⟩ ∈ (⟨ring⟩ : Ring Rat).edges ∧ ⟨v, w⟩ ∈ (⟨ring⟩ : Ring Rat).edges ∧
      Turn u v w := by
  obtain ⟨first, hfirst, hclosed⟩ := h.exists_closed_eq
  obtain ⟨rest, rfl⟩ := List.head?_eq_some_iff.mp hfirst
  have hstarts : (⟨first :: rest⟩ : Ring Rat).edges.map Segment.start = first :: rest := by
    rw [Ring.edges, hclosed, Segment.map_start_chain, List.dropLast_concat]
  have hfinishes : (⟨first :: rest⟩ : Ring Rat).edges.map Segment.finish = rest ++ [first] := by
    rw [Ring.edges, hclosed, Segment.map_finish_chain]
    rfl
  have hlast : v ∈ rest ++ [first] := (List.perm_append_singleton first rest).mem_iff.mpr hv
  rw [← hstarts] at hv
  rw [← hfinishes] at hlast
  obtain ⟨⟨_, w⟩, hfrom, rfl⟩ := List.mem_map.mp hv
  obtain ⟨⟨u, _⟩, hto, rfl⟩ := List.mem_map.mp hlast
  exact ⟨u, w, hto, hfrom, h.turn_at hto hfrom rfl⟩

theorem mem_of_mem_edges (h : IsConvex ring) {e : Segment Rat}
    (he : e ∈ (⟨ring⟩ : Ring Rat).edges) : e.start ∈ ring ∧ e.finish ∈ ring := by
  obtain ⟨i, -, hstart, hfinish⟩ := h.getElem?_of_mem_edges he
  exact ⟨List.mem_of_getElem? hstart, List.mem_of_getElem? hfinish⟩

/-- A property that every edge carries over holds of all vertices or of none. -/
theorem forall_of_edges (h : IsConvex ring) {P : Coord Rat → Prop}
    (hedges : ∀ e ∈ (⟨ring⟩ : Ring Rat).edges, P e.start → P e.finish) (hv : v ∈ ring) (hP : P v) :
    ∀ w ∈ ring, P w := by
  obtain ⟨first, hfirst, hclosed⟩ := h.exists_closed_eq
  obtain ⟨rest, rfl⟩ := List.head?_eq_some_iff.mp hfirst
  have hchain : (first :: rest ++ [first]).IsChain fun u w => P u → P w := by
    rw [← hclosed]
    exact Segment.isChain_iff.mpr hedges
  -- From the vertex on to the end, which is the first vertex, and from there all the way round.
  obtain ⟨before, after, hsplit⟩ := List.append_of_mem hv
  have hlast : P first := by
    have hsuffix := hchain
    rw [hsplit, List.append_assoc, List.cons_append, List.isChain_split] at hsuffix
    exact hsuffix.2.induction P _ (fun _ _ hstep => hstep) (fun _ => hP) first
      (List.mem_cons_of_mem _ (List.mem_append_right _ (List.mem_singleton_self first)))
  intro w hw
  exact hchain.induction P _ (fun _ _ hstep => hstep) (fun _ => hlast) w
    (List.mem_append_left _ hw)

theorem nonempty (h : IsConvex ring) : ring.toFinset.Nonempty :=
  (List.toFinset_nonempty_iff ring).mpr
    (List.ne_nil_of_length_pos (Nat.lt_of_lt_of_le three_pos h.long))

variable (h : IsConvex ring) (hleft : ∀ e ∈ (⟨ring⟩ : Ring Rat).edges, 0 ≤ cross e.start e.finish c)
include h hleft

/-- The point is not below all vertices. -/
theorem exists_below : ∃ v ∈ ring, v.y ≤ c.y := by
  obtain ⟨v, hv, hlowest⟩ := Finset.exists_min_image ring.toFinset (fun p => p.y) h.nonempty
  simp only [List.mem_toFinset] at hv hlowest
  obtain ⟨u, w, huv, hvw, hturn⟩ := h.exists_edges_at hv
  have hu : v.y ≤ u.y := hlowest u (h.mem_of_mem_edges huv).1
  have hw : v.y ≤ w.y := hlowest w (h.mem_of_mem_edges hvw).2
  have hbefore : 0 ≤ cross u v c * (w.y - v.y) :=
    mul_nonneg (hleft ⟨u, v⟩ huv) (sub_nonneg.mpr hw)
  have hafter : 0 ≤ cross v w c * (u.y - v.y) :=
    mul_nonneg (hleft ⟨v, w⟩ hvw) (sub_nonneg.mpr hu)
  have hheight : 0 ≤ cross u v w * (c.y - v.y) := by
    rw [height_eq]
    exact add_nonneg hbefore hafter
  have hturn : 0 < cross u v w := hturn
  exact ⟨v, hv, sub_nonneg.mp ((mul_nonneg_iff_of_pos_left hturn).mp hheight)⟩

/-- A point as high as the highest vertices is on an edge there. -/
theorem on_edge_of_top (htop : ∀ v ∈ ring, v.y ≤ c.y) :
    ∃ e ∈ (⟨ring⟩ : Ring Rat).edges, Ring.windingOf c e = none := by
  -- Of the highest vertices the rightmost one, which an edge rises to.
  obtain ⟨t, ht, hhighest⟩ :=
    Finset.exists_max_image ring.toFinset (fun p => toLex (p.y, p.x)) h.nonempty
  simp only [List.mem_toFinset, Prod.Lex.toLex_le_toLex] at ht hhighest
  have hunder : ∀ v ∈ ring, v.y ≤ t.y := fun v hv =>
    (hhighest v hv).elim le_of_lt fun hlevel => hlevel.1.le
  obtain ⟨u, w, hut, htw, hturn⟩ := h.exists_edges_at ht
  have hu : u ∈ ring := (h.mem_of_mem_edges hut).1
  have hw : w ∈ ring := (h.mem_of_mem_edges htw).2
  have hrise : u.y < t.y := rises_of_turn hturn (hunder w hw) (hhighest u hu)
  obtain ⟨hlevel, hline, hwhere⟩ := level_of_top hturn hrise (hunder w hw) (htop t ht)
    (hleft ⟨u, t⟩ hut) (hleft ⟨t, w⟩ htw)
  by_cases hsame : c.x = t.x
  · -- The point is the vertex.
    refine ⟨_, hut, Ring.windingOf_of_on (hrise.le.trans hlevel.ge) hlevel.le ?_ ?_⟩
    · rw [cross_of_level_finish hlevel, hsame, sub_self, mul_zero]
    · rw [isBetween_iff, hsame]
      exact ⟨min_le_right .., le_max_right ..⟩
  · -- It is on the edge that leads from there to the left.
    have hflat : w.y = t.y := hwhere.resolve_right hsame
    have hx : c.x ≤ t.x := le_of_rising hrise hlevel (hleft ⟨u, t⟩ hut)
    obtain ⟨-, z, -, hwz, -⟩ := h.exists_edges_at hw
    have hfall : z.y < w.y := by
      have hwx : w.x ≤ t.x := (hhighest w hw).elim (fun hlt => absurd hflat hlt.ne) And.right
      exact falls_of_turn (h.turn_at htw hwz rfl) hflat hwx
    have hwc : w.x ≤ c.x := le_of_falling hfall (hlevel.trans hflat.symm) (hleft ⟨w, z⟩ hwz)
    refine ⟨_, htw, Ring.windingOf_of_on hlevel.ge (hlevel.trans hflat.symm).le hline ?_⟩
    exact isBetween_iff.mpr ⟨(min_le_right ..).trans hwc, hx.trans (le_max_left ..)⟩

theorem winding_pos : ∀ k, Ring.winding c (⟨ring⟩ : Ring Rat).edges = some k → 0 < k := by
  refine Ring.winding_pos (fun e he => Ring.windingOf_nonneg (hleft e he)) ?_
  by_cases htop : ∀ v ∈ ring, v.y ≤ c.y
  · obtain ⟨e, he, hon⟩ := h.on_edge_of_top hleft htop
    refine ⟨e, he, fun k hk => ?_⟩
    rw [hon] at hk
    cases hk
  · obtain ⟨v, hv, hlow⟩ := h.exists_below hleft
    -- From a vertex that is not above the point to one that is, an edge rises past it.
    obtain ⟨e, he, hstart, hfinish⟩ :
        ∃ e ∈ (⟨ring⟩ : Ring Rat).edges, e.start.y ≤ c.y ∧ c.y < e.finish.y := by
      by_contra hnone
      push Not at hnone
      exact htop (h.forall_of_edges (P := fun v => v.y ≤ c.y) hnone hv hlow)
    exact ⟨e, he, Ring.windingOf_of_rising hstart hfinish (hleft e he)⟩

/-- What lies to the right of no edge is covered. -/
theorem covers : (⟨⟨ring⟩, []⟩ : Polygon Rat).covers c = true := by
  obtain ⟨first, -, hclosed⟩ := h.exists_closed_eq
  have hlong : 4 ≤ (⟨ring⟩ : Ring Rat).closed.length := by
    have := h.long
    rw [hclosed, List.length_append, List.length_singleton]
    omega
  have hposition : (⟨ring⟩ : Ring Rat).position c ≠ .outside := by
    have hwinding := h.winding_pos hleft
    unfold Ring.edges at hwinding
    unfold Ring.position
    split
    · next heq => simp [heq] at hlong
    · next heq => simp [heq] at hlong
    · split
      · exact nofun
      · next k hk =>
        rw [if_neg (hwinding k hk).ne']
        exact nofun
  unfold Polygon.covers
  split
  · next houtside => exact absurd houtside hposition
  · rfl
  · rfl

end IsConvex

end Hull

end DensityClustering
