import DensityClustering.Proofs.Geometry.ConvexRing
import DensityClustering.Proofs.Geometry.HullVertices

/-!
What the vertices of a hull surround. Points that are not all on one line give a ring that goes
round them once, from the first of them in lexicographic order; points on a line give its two ends.
A way along the ring turns left at a corner of one sweep because nothing that comes before or after
it lies beyond, and from two corners of one sweep to a corner of the other for the same reason,
applied to whichever of the three comes in the middle.
-/

namespace DensityClustering

namespace Hull

variable {R : Coord Rat → Coord Rat → Prop} {s points : List (Coord Rat)}
  {a b c p v first last : Coord Rat} {lows ups : List (Coord Rat)}

/-- One of the points, before all others. -/
def Foremost (R : Coord Rat → Coord Rat → Prop) (points : List (Coord Rat)) (v : Coord Rat) :
    Prop :=
  v ∈ points ∧ ∀ w ∈ points, w = v ∨ R v w

/-- All points are on one line. -/
def Collinear (points : List (Coord Rat)) : Prop :=
  ∀ a ∈ points, ∀ b ∈ points, ∀ c ∈ points, cross a b c = 0

instance (points : List (Coord Rat)) : Decidable (Collinear points) :=
  inferInstanceAs (Decidable (∀ a ∈ points, ∀ b ∈ points, ∀ c ∈ points, cross a b c = 0))

/-- A convex ring through some of the points, from the first of them, with all others to the left of
its edges. -/
structure Surrounds (ring points : List (Coord Rat)) : Prop extends IsConvex ring where
  subset : ring ⊆ points
  first : ∃ v, ring.head? = some v ∧ Foremost Before points v
  turn : ∀ e ∈ (⟨ring⟩ : Ring Rat).edges, ∀ f ∈ (⟨ring⟩ : Ring Rat).edges, e.finish = f.start →
    Turn e.start e.finish f.finish
  left : ∀ e ∈ (⟨ring⟩ : Ring Rat).edges, ∀ p ∈ points, 0 ≤ cross e.start e.finish p

section Corners

/-- A point strictly between others is not a corner from both sides. -/
theorem Corner.not_back (h : Corner R s v) (ha : a ∈ s) (hb : b ∈ s) (hav : R a v) (hvb : R v b) :
    ¬Corner (flip R) s v := by
  intro hback
  have hturn : 0 < cross a v b := h.2 a ha b hb hav hvb
  have hreturn : 0 < cross b v a := hback.2 b hb a ha hvb hav
  rw [cross_rotate, cross_swap] at hreturn
  linarith

/-- From two corners on one side to a third one on the other the way turns left, wherever that one
comes in the order. -/
theorem Corner.turn_back (hR : Sweep R) (ha : Corner R s a) (hb : Corner R s b)
    (hc : Corner (flip R) s c) (hab : R a b) (hca : c ≠ a) (hcb : c ≠ b) : Turn a b c := by
  rcases hR.connected c a with he | hbefore | hafter
  · exact absurd he hca
  · have hturn : Turn c a b := ha.2 c hc.1 b hb.1 hbefore hab
    exact hturn.rotate
  rcases hR.connected c b with he | hbetween | hbehind
  · exact absurd he hcb
  · have hturn : Turn b c a := hc.2 b hb.1 a ha.1 hbetween hafter
    exact hturn.rotate.rotate
  · exact hb.2 a ha.1 c hc.1 hab hbehind

/-- Corners in order turn left, three by three. -/
theorem triplewise_of_corners {vs : List (Coord Rat)} (hsorted : vs.Pairwise R)
    (hcorner : ∀ v ∈ vs, Corner R s v) : vs.Triplewise Turn := by
  refine List.triplewise_iff_getElem.mpr fun i j k hij hjk hk => ?_
  have hab : R vs[i] vs[j] := List.pairwise_iff_getElem.mp hsorted i j _ _ hij
  have hbc : R vs[j] vs[k] := List.pairwise_iff_getElem.mp hsorted j k _ _ hjk
  exact (hcorner _ (List.getElem_mem _)).2 _ (hcorner _ (List.getElem_mem _)).1 _
    (hcorner _ (List.getElem_mem _)).1 hab hbc

theorem Sweep.nodup (hR : Sweep R) (hs : s.Pairwise R) : s.Nodup :=
  hs.imp fun {a b} hab => by
    rintro rfl
    exact hR.irrefl a hab

theorem foremost_of_head? (hs : s.Pairwise R) (hmem : ∀ p, p ∈ s ↔ p ∈ points)
    (hhead : s.head? = some v) : Foremost R points v := by
  obtain ⟨rest, rfl⟩ := List.head?_eq_some_iff.mp hhead
  refine ⟨(hmem v).mp List.mem_cons_self, fun w hw => ?_⟩
  rw [← hmem, List.mem_cons] at hw
  exact hw.imp_right fun hw => List.rel_of_pairwise_cons hs hw

end Corners

section Line

theorem cross_of_same_x (p q a b c : Coord Rat) : (q.x - p.x) * cross a b c =
    (b.x - a.x) * (cross p q c - cross p q a) - (c.x - a.x) * (cross p q b - cross p q a) := by
  simp only [cross_eq]
  ring

theorem cross_of_same_y (p q a b c : Coord Rat) : (q.y - p.y) * cross a b c =
    (b.y - a.y) * (cross p q c - cross p q a) - (c.y - a.y) * (cross p q b - cross p q a) := by
  simp only [cross_eq]
  ring

/-- Points on the line through two of them are collinear. -/
theorem collinear_of_line {p q : Coord Rat} (hne : p ≠ q) (h : ∀ w ∈ points, cross p q w = 0) :
    Collinear points := by
  intro a ha b hb c hc
  have hx := cross_of_same_x p q a b c
  have hy := cross_of_same_y p q a b c
  simp only [h a ha, h b hb, h c hc, sub_self, mul_zero, mul_eq_zero, sub_eq_zero] at hx hy
  by_contra hcross
  apply hne
  obtain ⟨px, py⟩ := p
  obtain ⟨qx, qy⟩ := q
  rw [Coord.mk.injEq]
  exact ⟨(hx.resolve_right hcross).symm, (hy.resolve_right hcross).symm⟩

theorem x_le_of_before (h : b = a ∨ Before a b) : a.x ≤ b.x := by
  rcases h with rfl | h
  · exact le_rfl
  · exact (before_iff.mp h).elim le_of_lt fun hsame => hsame.1.le

theorem y_le_of_before (h : b = a ∨ Before a b) (hx : b.x ≤ a.x) : a.y ≤ b.y := by
  rcases h with rfl | h
  · exact le_rfl
  · exact (before_iff.mp h).elim (fun hlt => absurd hlt hx.not_gt) fun hsame => hsame.2.le

/-- What a segment has on its line, between its ends in the order, is on it. -/
theorem contains_of_line (hfirst : p = a ∨ Before a p) (hlast : p = b ∨ Before p b)
    (hline : cross a b p = 0) : (⟨a, b⟩ : Segment Rat).contains p = true := by
  have hleft : a.x ≤ p.x := x_le_of_before hfirst
  have hright : p.x ≤ b.x := x_le_of_before (hlast.imp_left Eq.symm)
  have hbetween : isBetween p.x a.x b.x = true :=
    isBetween_iff.mpr ⟨(min_le_left ..).trans hleft, hright.trans (le_max_right ..)⟩
  have hbetween' : isBetween p.y a.y b.y = true := by
    rcases (hleft.trans hright).lt_or_eq with hlt | hsame
    · rw [cross_eq] at hline
      exact isBetween_of_line hleft hright hlt (by linear_combination hline)
    · -- Upright, the order is that of the heights.
      have hlow : a.y ≤ p.y := y_le_of_before hfirst (hright.trans hsame.ge)
      have hhigh : p.y ≤ b.y := y_le_of_before (hlast.imp_left Eq.symm) (hsame.ge.trans hleft)
      exact isBetween_iff.mpr ⟨(min_le_left ..).trans hlow, hhigh.trans (le_max_right ..)⟩
  have hturn : turn a b p = .straight := turn_eq_straight.mpr hline
  unfold Segment.contains
  rw [hbetween, hbetween', hturn]
  rfl

end Line

namespace Rim

variable (hrim : Rim points first last lows ups)
include hrim

theorem vertices_eq : vertices points = lows.reverse ++ ups.reverse := by
  have hlong : ¬(last :: lows).length < 2 := by
    have hpos : 0 < lows.length := List.length_pos_of_mem hrim.first_mem
    rw [List.length_cons]
    omega
  rw [Hull.vertices_eq, hrim.lower_eq, hrim.upper_eq, if_neg hlong]
  rfl

theorem descending : lows.Pairwise (flip Before) ∧ ∀ v ∈ lows, Before v last := by
  have h := (chain_chain sweep_before (pairwise_sites points)).descending
  rw [← lower, hrim.lower_eq] at h
  exact ⟨h.of_cons, fun v hv => List.rel_of_pairwise_cons h hv⟩

theorem ascending : ups.Pairwise Before ∧ ∀ v ∈ ups, Before first v := by
  have h := (chain_chain sweep_before.flip (pairwise_reverse_sites points)).descending
  rw [← upper, hrim.upper_eq] at h
  exact ⟨h.of_cons, fun v hv => List.rel_of_pairwise_cons h hv⟩

theorem sites_ends : (sites points).head? = some first ∧ (sites points).getLast? = some last := by
  constructor
  · rw [← List.getLast?_reverse, ← head?_chain, ← upper, hrim.upper_eq]
    rfl
  · rw [← head?_chain, ← lower, hrim.lower_eq]
    rfl

theorem getLast?_lows : lows.getLast? = some first := by
  have hlast : (lower points).getLast? = some first := by
    rw [lower, getLast?_chain, hrim.sites_ends.1]
  rwa [hrim.lower_eq, List.getLast?_cons_of_ne_nil (List.ne_nil_of_mem hrim.first_mem)] at hlast

theorem getLast?_ups : ups.getLast? = some last := by
  have hlast : (upper points).getLast? = some last := by
    rw [upper, getLast?_chain, List.head?_reverse, hrim.sites_ends.2]
  rwa [hrim.upper_eq, List.getLast?_cons_of_ne_nil (List.ne_nil_of_mem hrim.last_mem)] at hlast

/-- The vertices begin with the first point. -/
theorem head?_vertices : (vertices points).head? = some first := by
  rw [hrim.vertices_eq, List.head?_append, List.head?_reverse, hrim.getLast?_lows, Option.some_or]

variable (h : Apart points)
include h

theorem lows_corner (hv : v ∈ lows) : Corner Before points v := by
  rw [← mem_lower h, hrim.lower_eq]
  exact List.mem_cons_of_mem _ hv

theorem ups_corner (hv : v ∈ ups) : Corner (flip Before) points v := by
  rw [← mem_upper h, hrim.upper_eq]
  exact List.mem_cons_of_mem _ hv

theorem first_mem_points : first ∈ points := (hrim.lows_corner h hrim.first_mem).1

theorem last_mem_points : last ∈ points := (hrim.ups_corner h hrim.last_mem).1

theorem foremost : Foremost Before points first ∧ Foremost (flip Before) points last := by
  constructor
  · exact foremost_of_head? (pairwise_sites points) (fun _ => mem_sites h) hrim.sites_ends.1
  · refine foremost_of_head? (pairwise_reverse_sites points) (fun p => ?_) ?_
    · rw [List.mem_reverse, mem_sites h]
    · rw [List.head?_reverse, hrim.sites_ends.2]

/-- The chains have no vertex in common. -/
theorem disjoint (hv : v ∈ lows) (hv' : v ∈ ups) : False :=
  (hrim.lows_corner h hv).not_back (hrim.first_mem_points h) (hrim.last_mem_points h)
    (hrim.ascending.2 v hv') (hrim.descending.2 v hv) (hrim.ups_corner h hv')

theorem nodup : (vertices points).Nodup := by
  rw [hrim.vertices_eq, List.nodup_append, List.nodup_reverse, List.nodup_reverse]
  refine ⟨sweep_before.flip.nodup hrim.descending.1, sweep_before.nodup hrim.ascending.1, ?_⟩
  rintro u hu _ hv rfl
  exact hrim.disjoint h (List.mem_reverse.mp hu) (List.mem_reverse.mp hv)

/-- Any three vertices, as they come, turn left. -/
theorem round : (vertices points).Triplewise Turn := by
  have hlows : ∀ v ∈ lows.reverse, Corner Before points v := fun v hv =>
    hrim.lows_corner h (List.mem_reverse.mp hv)
  have hups : ∀ v ∈ ups.reverse, Corner (flip Before) points v := fun v hv =>
    hrim.ups_corner h (List.mem_reverse.mp hv)
  have hrising : lows.reverse.Pairwise Before := List.pairwise_reverse.mpr hrim.descending.1
  have hfalling : ups.reverse.Pairwise (flip Before) := List.pairwise_reverse.mpr hrim.ascending.1
  have hne : ∀ u ∈ lows.reverse, ∀ v ∈ ups.reverse, u ≠ v := by
    rintro u hu _ hv rfl
    exact hrim.disjoint h (List.mem_reverse.mp hu) (List.mem_reverse.mp hv)
  rw [hrim.vertices_eq, List.triplewise_append]
  refine ⟨triplewise_of_corners hrising hlows, triplewise_of_corners hfalling hups,
    fun a ha => hfalling.imp_of_mem fun {b c} hb hc hbc => ?_,
    fun c hc => hrising.imp_of_mem fun {a b} ha hb hab => ?_⟩
  · have hturn : Turn b c a := Corner.turn_back sweep_before.flip (hups b hb) (hups c hc)
      (hlows a ha) hbc (hne a ha b hb) (hne a ha c hc)
    exact hturn.rotate.rotate
  · exact Corner.turn_back sweep_before (hlows a ha) (hlows b hb) (hups c hc) hab
      (hne a ha c hc).symm (hne b hb c hc).symm

/-- None of the points lies to the right of an edge. -/
theorem beside : (vertices points ++ [first]).IsChain fun u v =>
    ∀ p ∈ points, 0 ≤ cross u v p := by
  have hlower := (chain_chain sweep_before (pairwise_sites points)).beside sweep_before
  have hupper := (chain_chain sweep_before.flip (pairwise_reverse_sites points)).beside
    sweep_before.flip
  rw [← lower, hrim.lower_eq, List.reverse_cons] at hlower
  rw [← upper, hrim.upper_eq, List.reverse_cons] at hupper
  simp only [List.mem_reverse, mem_sites h] at hlower hupper
  -- The way back begins where the way there ends.
  obtain ⟨back, rfl⟩ := List.getLast?_eq_some_iff.mp hrim.getLast?_ups
  rw [List.reverse_append, List.reverse_singleton, List.singleton_append] at hupper
  rw [hrim.vertices_eq, List.reverse_append, List.reverse_singleton, List.append_assoc,
    List.singleton_append, List.cons_append, List.isChain_split]
  exact ⟨hlower, hupper⟩

/-- With nothing between the ends, either way, all points are on one line. -/
theorem collinear_of_ends (hlows : lows = [first]) (hups : ups = [last]) : Collinear points := by
  have hne : first ≠ last := by
    rintro rfl
    exact sweep_before.irrefl first (hrim.descending.2 first hrim.first_mem)
  have hbeside := hrim.beside h
  rw [hrim.vertices_eq, hlows, hups] at hbeside
  obtain ⟨hthere, hback⟩ := List.isChain_cons_cons.mp hbeside
  refine collinear_of_line hne fun w hw => le_antisymm ?_ (hthere w hw)
  have hreturn : 0 ≤ cross last first w := List.isChain_pair.mp hback w hw
  rw [← cross_rotate, cross_swap] at hreturn
  exact neg_nonneg.mp hreturn

theorem long (hnot : ¬Collinear points) : 3 ≤ (vertices points).length := by
  by_contra hshort
  have hlows : 0 < lows.length := List.length_pos_of_mem hrim.first_mem
  have hups : 0 < ups.length := List.length_pos_of_mem hrim.last_mem
  rw [hrim.vertices_eq, List.length_append, List.length_reverse, List.length_reverse] at hshort
  obtain ⟨u, hu⟩ := List.length_eq_one_iff.mp (show lows.length = 1 by omega)
  obtain ⟨v, hv⟩ := List.length_eq_one_iff.mp (show ups.length = 1 by omega)
  obtain rfl : first = u := List.mem_singleton.mp (hu ▸ hrim.first_mem)
  obtain rfl : last = v := List.mem_singleton.mp (hv ▸ hrim.last_mem)
  exact hnot (hrim.collinear_of_ends h hu hv)

/-- On a line only the ends are corners. -/
theorem vertices_of_collinear (hline : Collinear points) : vertices points = [first, last] := by
  have hfirst := hrim.first_mem_points h
  have hlast := hrim.last_mem_points h
  obtain ⟨hleast, hgreatest⟩ := hrim.foremost h
  have hlows : ∀ v ∈ lows, v = first := fun v hv => by
    refine (hleast.2 v (hrim.lows_corner h hv).1).resolve_right fun hafter => ?_
    have hturn : Turn first v last :=
      (hrim.lows_corner h hv).2 first hfirst last hlast hafter (hrim.descending.2 v hv)
    exact hturn.ne' (hline first hfirst v (hrim.lows_corner h hv).1 last hlast)
  have hups : ∀ v ∈ ups, v = last := fun v hv => by
    refine (hgreatest.2 v (hrim.ups_corner h hv).1).resolve_right fun hbefore => ?_
    have hturn : Turn last v first :=
      (hrim.ups_corner h hv).2 last hlast first hfirst hbefore (hrim.ascending.2 v hv)
    exact hturn.ne' (hline last hlast v (hrim.ups_corner h hv).1 first hfirst)
  have hlows' : lows = [first] := by
    refine sweep_before.flip.eq_of_mem_iff hrim.descending.1 (List.pairwise_singleton ..) ?_
    intro v
    rw [List.mem_singleton]
    exact ⟨hlows v, fun he => he ▸ hrim.first_mem⟩
  have hups' : ups = [last] := by
    refine sweep_before.eq_of_mem_iff hrim.ascending.1 (List.pairwise_singleton ..) ?_
    intro v
    rw [List.mem_singleton]
    exact ⟨hups v, fun he => he ▸ hrim.last_mem⟩
  rw [hrim.vertices_eq, hlows', hups']
  rfl

end Rim

section Shape

theorem two_le_sites (h : Apart points) (ha : a ∈ points) (hb : b ∈ points) (hne : a ≠ b) :
    2 ≤ (sites points).length := by
  by_contra hshort
  rw [← mem_sites h] at ha hb
  match hsites : sites points, hshort with
  | [], _ => rw [hsites] at ha; cases ha
  | [v], _ =>
    rw [hsites, List.mem_singleton] at ha hb
    exact hne (ha.trans hb.symm)
  | _ :: _ :: _, hshort => simp at hshort

theorem vertices_of_same (h : Apart points) (hp : p ∈ points) (hsame : ∀ q ∈ points, q = p) :
    vertices points = [p] := by
  have hsites : sites points = [p] := by
    refine sweep_before.eq_of_mem_iff (pairwise_sites points) (List.pairwise_singleton ..) ?_
    intro q
    rw [mem_sites h, List.mem_singleton]
    exact ⟨hsame q, fun he => he ▸ hp⟩
  unfold vertices
  rw [hsites]
  rfl

theorem exists_vertices_of_collinear (h : Apart points) (hline : Collinear points)
    (hsome : ∃ a ∈ points, ∃ b ∈ points, a ≠ b) :
    ∃ first last, Foremost Before points first ∧ Foremost (flip Before) points last ∧
      vertices points = [first, last] := by
  obtain ⟨a, ha, b, hb, hne⟩ := hsome
  obtain ⟨first, last, lows, ups, hrim⟩ := exists_rim (two_le_sites h ha hb hne)
  exact ⟨first, last, (hrim.foremost h).1, (hrim.foremost h).2, hrim.vertices_of_collinear h hline⟩

/-- Points that are not on one line are surrounded by the vertices. -/
theorem surrounds_vertices (h : Apart points) (hnot : ¬Collinear points) :
    Surrounds (vertices points) points := by
  obtain ⟨a, ha, b, hb, hne⟩ : ∃ a ∈ points, ∃ b ∈ points, a ≠ b := by
    unfold Collinear at hnot
    push Not at hnot
    obtain ⟨a, ha, b, -, c, hc, hcross⟩ := hnot
    refine ⟨a, ha, c, hc, ?_⟩
    rintro rfl
    exact hcross (cross_self_left a b)
  obtain ⟨first, last, lows, ups, hrim⟩ := exists_rim (two_le_sites h ha hb hne)
  have hhead := hrim.head?_vertices
  have hconvex : IsConvex (vertices points) := ⟨hrim.long h hnot, hrim.nodup h, hrim.round h⟩
  refine ⟨hconvex, fun v hv => ((mem_vertices h).mp hv).mem, ⟨first, hhead, (hrim.foremost h).1⟩,
    fun e he f hf => hconvex.turn_at he hf, ?_⟩
  obtain ⟨first', hhead', hclosed⟩ := hconvex.exists_closed_eq
  obtain rfl : first = first' := Option.some.inj (hhead.symm.trans hhead')
  rw [Ring.edges, hclosed]
  exact Segment.isChain_iff.mp (hrim.beside h)

end Shape

end Hull

end DensityClustering
