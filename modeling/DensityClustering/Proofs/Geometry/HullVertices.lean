import Mathlib.Data.List.Sort
import Mathlib.Tactic.NormNum
import DensityClustering.Proofs.Geometry.MonotoneChain

/-!
The vertices of a hull. They are the corners of the points swept from either side, in an order that
the set of corners decides. So points that keep all corners keep the hull, and the hull of some
points can stand for them among any others.
-/

namespace DensityClustering

namespace Hull

variable {R : Coord Rat → Coord Rat → Prop} {s points : List (Coord Rat)} {p v : Coord Rat}

/-- No two of the points are close to each other. -/
def Apart (points : List (Coord Rat)) : Prop :=
  ∀ p ∈ points, ∀ q ∈ points, isClose p q = true → p = q

instance (points : List (Coord Rat)) : Decidable (Apart points) :=
  inferInstanceAs (Decidable (∀ p ∈ points, ∀ q ∈ points, isClose p q = true → p = q))

theorem Apart.of_subset {points' : List (Coord Rat)} (h : Apart points)
    (hsub : points' ⊆ points) : Apart points' :=
  fun p hp q hq => h p (hsub hp) q (hsub hq)

theorem isClose_self (p : Coord Rat) : isClose p p = true := by
  show decide ((p.x - p.x) * (p.x - p.x) + (p.y - p.y) * (p.y - p.y) <
    mkRat 1 1000000000000000000000000) = true
  rw [sub_self, sub_self]
  decide +kernel

section Sites

theorem mem_thin {last : Coord Rat} (h : Apart (last :: points)) :
    p ∈ last :: thin last points ↔ p ∈ last :: points := by
  induction points generalizing last with
  | nil => rfl
  | cons q points ih =>
    unfold thin
    split
    · next hclose =>
      obtain rfl : q = last :=
        h q (List.mem_cons_of_mem _ List.mem_cons_self) last List.mem_cons_self hclose
      rw [ih (h.of_subset (List.subset_cons_self ..))]
      simp only [List.mem_cons, or_self_left]
    · rw [List.mem_cons, ih (h.of_subset (List.subset_cons_self ..)), List.mem_cons (b := last)]

theorem before_of_isLE {q : Coord Rat} (h : (Coord.order p q).isLE = true) (hne : p ≠ q) :
    Before p q :=
  (Ordering.isLE_iff_eq_lt_or_eq_eq.mp h).resolve_right fun he =>
    hne (Std.LawfulEqCmp.eq_of_compare he)

theorem pairwise_thin {last : Coord Rat}
    (h : (last :: points).Pairwise fun a b => (Coord.order a b).isLE = true) :
    (last :: thin last points).Pairwise Before := by
  induction points generalizing last with
  | nil => exact List.pairwise_singleton ..
  | cons q points ih =>
    obtain ⟨hlast, hrest⟩ := List.pairwise_cons.mp h
    unfold thin
    split
    · exact ih (h.sublist (.cons_cons _ (List.sublist_cons_self ..)))
    · next hclose =>
      have hne : last ≠ q := by
        rintro rfl
        exact hclose (isClose_self last)
      have hbefore : Before last q := before_of_isLE (hlast q List.mem_cons_self) hne
      have hthin : (q :: thin q points).Pairwise Before := ih hrest
      refine List.pairwise_cons.mpr ⟨fun r hr => ?_, hthin⟩
      rcases List.mem_cons.mp hr with rfl | hr
      · exact hbefore
      · exact sweep_before.trans hbefore (List.rel_of_pairwise_cons hthin hr)

theorem pairwise_mergeSort_order {S : Type} [Scalar S] (points : List (Coord S)) :
    (points.mergeSort fun a b => (Coord.order a b).isLE).Pairwise
      fun a b => (Coord.order a b).isLE = true :=
  List.pairwise_mergeSort (fun _ _ _ => Std.TransCmp.isLE_trans)
    (fun a b => by
      cases h : Coord.order a b with
      | lt => rfl
      | eq => rfl
      | gt =>
        rw [show Coord.order b a = .lt from Std.OrientedCmp.lt_of_gt h, Bool.or_comm]
        rfl) points

theorem filter_isFinite (points : List (Coord Rat)) : points.filter Coord.isFinite = points :=
  List.filter_eq_self.mpr fun _ _ => rfl

/-- The sites come in lexicographic order, none twice. -/
theorem pairwise_sites (points : List (Coord Rat)) : (sites points).Pairwise Before := by
  have hsorted := pairwise_mergeSort_order points
  unfold sites
  rw [filter_isFinite]
  split
  · exact .nil
  · next heq =>
    rw [heq] at hsorted
    exact pairwise_thin hsorted

/-- Points that are apart are all sites. -/
theorem mem_sites (h : Apart points) : p ∈ sites points ↔ p ∈ points := by
  have hmem : ∀ q, q ∈ points.mergeSort (fun a b => (Coord.order a b).isLE) ↔ q ∈ points :=
    fun _ => List.mem_mergeSort
  unfold sites
  rw [filter_isFinite, ← hmem]
  split
  · next heq => rw [heq]
  · next heq =>
    rw [heq] at hmem ⊢
    exact mem_thin (h.of_subset fun q hq => (hmem q).mp hq)

end Sites

theorem Sweep.eq_of_mem_iff (hR : Sweep R) {s' : List (Coord Rat)} (h : s.Pairwise R)
    (h' : s'.Pairwise R) (hmem : ∀ p, p ∈ s ↔ p ∈ s') : s = s' :=
  have : Std.Irrefl R := ⟨hR.irrefl⟩
  have : Std.Antisymm R := ⟨fun _ _ hab hba => absurd hba (hR.asymm hab)⟩
  List.Pairwise.eq_of_mem_iff h h' hmem

theorem corner_congr {s' : List (Coord Rat)} (h : ∀ p, p ∈ s ↔ p ∈ s') :
    Corner R s v ↔ Corner R s' v := by
  unfold Corner
  simp only [h]

section Ends

theorem chain_of_length_lt_two (h : s.length < 2) : chain s = s := by
  match s, h with
  | [], _ => rfl
  | [_], _ => rfl

theorem exists_ends (h : 2 ≤ s.length) : ∃ b mid t, s = b :: (mid ++ [t]) := by
  match s, h with
  | b :: rest, h =>
    have hne : rest ≠ [] := by
      rintro rfl
      simp at h
    exact ⟨b, rest.dropLast, rest.getLast hne, by rw [List.dropLast_concat_getLast]⟩

/-- The chain round two points or more goes from the first to the last. -/
theorem exists_chain_ends (hR : Sweep R) {b t : Coord Rat} {mid : List (Coord Rat)}
    (hs : (b :: (mid ++ [t])).Pairwise R) :
    ∃ rest, chain (b :: (mid ++ [t])) = t :: rest ∧ b ∈ rest := by
  have hconcat : chain (b :: (mid ++ [t])) = t :: retreat t (chain (b :: mid)) :=
    chain_concat (b :: mid) t
  obtain ⟨hfirst, -⟩ := List.pairwise_cons.mp hs
  have hbt : R b t := hfirst t (List.mem_append_right _ (List.mem_singleton_self t))
  have hmem : b ∈ chain (b :: (mid ++ [t])) := List.mem_of_getLast? (getLast?_chain _)
  refine ⟨_, hconcat, ?_⟩
  rw [hconcat] at hmem
  refine (List.mem_cons.mp hmem).resolve_left ?_
  rintro rfl
  exact hR.irrefl b hbt

theorem length_chain_lt_two (hR : Sweep R) (hs : s.Pairwise R) :
    (chain s).length < 2 ↔ s.length < 2 := by
  refine ⟨fun h => Classical.byContradiction fun hlong => ?_, fun h => ?_⟩
  · obtain ⟨b, mid, t, rfl⟩ := exists_ends (Nat.le_of_not_lt hlong)
    obtain ⟨rest, hchain, hb⟩ := exists_chain_ends hR hs
    have hpos : 0 < rest.length := List.length_pos_of_mem hb
    rw [hchain, List.length_cons] at h
    omega
  · rwa [chain_of_length_lt_two h]

end Ends

/-- The corners of the points from the left, last one first. -/
def lower (points : List (Coord Rat)) : List (Coord Rat) := chain (sites points)

/-- The corners of the points from the right, last one first. -/
def upper (points : List (Coord Rat)) : List (Coord Rat) := chain (sites points).reverse

theorem pairwise_reverse_sites (points : List (Coord Rat)) :
    (sites points).reverse.Pairwise (flip Before) :=
  List.pairwise_reverse.mpr (pairwise_sites points)

theorem mem_lower (h : Apart points) : v ∈ lower points ↔ Corner Before points v := by
  rw [lower, mem_chain sweep_before (pairwise_sites points)]
  exact corner_congr fun _ => mem_sites h

theorem mem_upper (h : Apart points) : v ∈ upper points ↔ Corner (flip Before) points v := by
  rw [upper, mem_chain sweep_before.flip (pairwise_reverse_sites points)]
  refine corner_congr fun p => ?_
  rw [List.mem_reverse, mem_sites h]

/-- Each chain gives all of its corners but the last one, with which the other one begins. -/
theorem vertices_eq (points : List (Coord Rat)) : vertices points =
    if (lower points).length < 2 then lower points
    else (lower points).tail.reverse ++ (upper points).tail.reverse := by
  unfold lower upper
  simp only [length_chain_lt_two sweep_before (pairwise_sites points)]
  unfold vertices
  dsimp only
  match sites points with
  | [] => rfl
  | [_] => rfl
  | [p, q] => rfl
  | p :: q :: r :: rest => rw [if_neg (by simp), if_neg (by simp)]

/-- The two chains, each of which ends with the point that the other one begins with. -/
structure Rim (points : List (Coord Rat)) (first last : Coord Rat)
    (lows ups : List (Coord Rat)) : Prop where
  lower_eq : lower points = last :: lows
  upper_eq : upper points = first :: ups
  first_mem : first ∈ lows
  last_mem : last ∈ ups

theorem exists_rim (h : 2 ≤ (sites points).length) :
    ∃ first last lows ups, Rim points first last lows ups := by
  obtain ⟨b, mid, t, hends⟩ := exists_ends h
  have hsorted := pairwise_sites points
  have hreverse := pairwise_reverse_sites points
  have hback : (sites points).reverse = t :: (mid.reverse ++ [b]) := by
    rw [hends, List.reverse_cons, List.reverse_append]
    rfl
  rw [hends] at hsorted
  rw [hback] at hreverse
  obtain ⟨lows, hlows, hb⟩ := exists_chain_ends sweep_before hsorted
  obtain ⟨ups, hups, ht⟩ := exists_chain_ends sweep_before.flip hreverse
  exact ⟨b, t, lows, ups, by rw [lower, hends, hlows], by rw [upper, hback, hups], hb, ht⟩

/-- A corner, from one side or the other. -/
def OnHull (points : List (Coord Rat)) (v : Coord Rat) : Prop :=
  Corner Before points v ∨ Corner (flip Before) points v

theorem OnHull.mem (h : OnHull points v) : v ∈ points := h.elim And.left And.left

theorem OnHull.of_subset {points' : List (Coord Rat)} (h : OnHull points v)
    (hsub : points' ⊆ points) (hmem : v ∈ points') : OnHull points' v :=
  h.imp (fun h => h.of_subset hsub hmem) fun h => h.of_subset hsub hmem

theorem mem_vertices (h : Apart points) : v ∈ vertices points ↔ OnHull points v := by
  rw [OnHull, ← mem_lower h, ← mem_upper h, vertices_eq]
  by_cases hshort : (lower points).length < 2
  · have hsites : (sites points).length < 2 :=
      (length_chain_lt_two sweep_before (pairwise_sites points)).mp hshort
    have hlower : lower points = sites points := chain_of_length_lt_two hsites
    have hupper : upper points = (sites points).reverse :=
      chain_of_length_lt_two (by rwa [List.length_reverse])
    rw [if_pos hshort, hlower, hupper, List.mem_reverse, or_self]
  · have hsites : 2 ≤ (sites points).length := by
      rw [lower, length_chain_lt_two sweep_before (pairwise_sites points)] at hshort
      omega
    obtain ⟨first, last, lows, ups, hrim⟩ := exists_rim hsites
    rw [if_neg hshort, hrim.lower_eq, hrim.upper_eq]
    simp only [List.tail_cons, List.mem_append, List.mem_reverse, List.mem_cons]
    -- Each chain begins with the point that the other one ends at.
    constructor
    · exact Or.imp Or.inr Or.inr
    · rintro ((rfl | hv) | rfl | hv)
      · exact Or.inr hrim.last_mem
      · exact Or.inl hv
      · exact Or.inl hrim.first_mem
      · exact Or.inr hv

/-- The corners decide the vertices. -/
theorem vertices_eq_of_corner_iff {points' : List (Coord Rat)} (h : Apart points)
    (h' : Apart points') (hlow : ∀ v, Corner Before points v ↔ Corner Before points' v)
    (hup : ∀ v, Corner (flip Before) points v ↔ Corner (flip Before) points' v) :
    vertices points = vertices points' := by
  have hlower : lower points = lower points' := by
    refine sweep_before.flip.eq_of_mem_iff
      (chain_chain sweep_before (pairwise_sites points)).descending
      (chain_chain sweep_before (pairwise_sites points')).descending fun v => ?_
    exact (mem_lower h).trans ((hlow v).trans (mem_lower h').symm)
  have hupper : upper points = upper points' := by
    refine sweep_before.eq_of_mem_iff
      (chain_chain sweep_before.flip (pairwise_reverse_sites points)).descending
      (chain_chain sweep_before.flip (pairwise_reverse_sites points')).descending fun v => ?_
    exact (mem_upper h).trans ((hup v).trans (mem_upper h').symm)
  rw [vertices_eq, vertices_eq, hlower, hupper]

/-- Some of the points, with all corners among them. -/
structure Spans (some all : List (Coord Rat)) : Prop where
  subset : some ⊆ all
  corner : ∀ v, OnHull all v → v ∈ some

namespace Spans

variable {A B C : List (Coord Rat)}

theorem of_mem_iff (h : ∀ p, p ∈ A ↔ p ∈ B) : Spans A B :=
  ⟨fun p hp => (h p).mp hp, fun v hv => (h v).mpr hv.mem⟩

theorem trans (h : Spans A B) (h' : Spans B C) : Spans A C :=
  ⟨fun _ hp => h'.subset (h.subset hp), fun v hv =>
    h.corner v (hv.of_subset h'.subset (h'.corner v hv))⟩

theorem append (h : Spans A B) (C : List (Coord Rat)) : Spans (A ++ C) (B ++ C) := by
  refine ⟨List.append_subset.mpr ⟨fun p hp => List.mem_append_left _ (h.subset hp),
    List.subset_append_right ..⟩, fun v hv => ?_⟩
  rcases List.mem_append.mp hv.mem with hmem | hmem
  · exact List.mem_append_left _ (h.corner v (hv.of_subset (List.subset_append_left ..) hmem))
  · exact List.mem_append_right _ hmem

theorem of_vertices (h : Apart A) : Spans (vertices A) A :=
  ⟨fun _ hp => ((mem_vertices h).mp hp).mem, fun _ hv => (mem_vertices h).mpr hv⟩

/-- Whoever has all corners has no others. -/
theorem corner_iff (h : Spans A B) (hR : Sweep R) (hs : s.Pairwise R) (hmem : ∀ p, p ∈ s ↔ p ∈ B)
    (hvertex : ∀ v, Corner R B v → OnHull B v) : Corner R A v ↔ Corner R B v := by
  refine ⟨fun hv => ?_, fun hv => hv.of_subset h.subset (h.corner v (hvertex v hv))⟩
  have hchain : ∀ u ∈ chain s, Corner R B u := fun u hu =>
    (corner_congr hmem).mp ((mem_chain hR hs).mp hu)
  have hin : ∀ u ∈ chain s, u ∈ A := fun u hu => h.corner u (hvertex u (hchain u hu))
  refine hchain v (Classical.byContradiction fun hnot => ?_)
  -- Off the chain it would lie to the left of the way between two corners.
  obtain ⟨a, ha, b, hb, hav, hvb, hleft⟩ :=
    passed_of_not_mem_chain hR hs ((hmem v).mpr (h.subset hv.1)) hnot
  exact hleft (hv.2 a (hin a ha) b (hin b hb) hav hvb)

/-- Points with all corners have the hull of all points. -/
theorem vertices_eq (h : Spans A B) (hapart : Apart B) : vertices A = vertices B := by
  refine vertices_eq_of_corner_iff (hapart.of_subset h.subset) hapart (fun v => ?_) fun v => ?_
  · exact h.corner_iff sweep_before (pairwise_sites B) (fun _ => mem_sites hapart) fun _ => Or.inl
  · refine h.corner_iff sweep_before.flip (pairwise_reverse_sites B) (fun p => ?_) fun _ => Or.inr
    rw [List.mem_reverse, mem_sites hapart]

end Spans

theorem vertices_ne_nil (h : Apart points) (hp : p ∈ points) : vertices points ≠ [] := by
  have hsite : p ∈ sites points := (mem_sites h).mpr hp
  obtain ⟨t, ht⟩ : ∃ t, (lower points).head? = some t := by
    rw [lower, head?_chain]
    exact ⟨_, List.getLast?_eq_some_getLast (List.ne_nil_of_mem hsite)⟩
  have hcorner : Corner Before points t := (mem_lower h).mp (List.mem_of_head? ht)
  exact List.ne_nil_of_mem ((mem_vertices h).mpr (Or.inl hcorner))

end Hull

/-- The vertices of a geometry, if there is one. -/
def Geometry.corners {S : Type} [Scalar S] (g : Option (Geometry S)) : List (Coord S) :=
  g.elim [] coords

open Hull (vertices)

theorem Geometry.exists_ofHull {S : Type} {ring : List (Coord S)} (h : ring ≠ []) :
    ∃ g, ofHull ring = some g := by
  match ring, h with
  | [p], _ => exact ⟨_, rfl⟩
  | [p, q], _ => exact ⟨_, rfl⟩
  | p :: q :: r :: rest, _ => exact ⟨_, rfl⟩

/-- Closing a ring adds no point. -/
theorem Ring.mem_closed {S : Type} [Scalar S] (r : Ring S) (p : Coord S) :
    p ∈ r.closed ↔ p ∈ r.vertices := by
  unfold closed
  split
  · next first last hfirst hlast =>
    split
    · rfl
    · have hmem : first ∈ r.vertices := List.mem_of_head? hfirst
      refine List.mem_append.trans (or_iff_left_of_imp fun hp => ?_)
      rw [List.mem_singleton.mp hp]
      exact hmem
  · rfl

theorem Geometry.mem_coords_ofHull {ring : List (Coord Rat)} {g : Geometry Rat}
    (h : ofHull ring = some g) (p : Coord Rat) : p ∈ g.coords ↔ p ∈ ring := by
  unfold ofHull at h
  split at h
  · cases h
  · cases h
    rfl
  · cases h
    rfl
  · cases h
    show p ∈ (⟨⟨ring⟩, []⟩ : Polygon Rat).coords ↔ _
    rw [Polygon.coords, Polygon.rings, List.flatMap_singleton]
    exact Ring.mem_closed ⟨ring⟩ p

/-- A rebuilt hull is that of all vertices and points; without any the geometry stays. -/
theorem hull_rebuilt {S : Type} [Scalar S] (existing : Option (Geometry S))
    (points : List (Coord S)) : hull existing points true =
      (Geometry.ofHull (vertices (Geometry.corners existing ++ points))).or existing := by
  cases existing <;> rfl

/-- The hull of some points does not fall back on the geometry that there was. -/
theorem exists_hull_rebuilt {existing : Option (Geometry Rat)} {points : List (Coord Rat)}
    {p : Coord Rat} (hapart : Hull.Apart (Geometry.corners existing ++ points))
    (hp : p ∈ Geometry.corners existing ++ points) :
    ∃ g, Geometry.ofHull (vertices (Geometry.corners existing ++ points)) = some g ∧
      hull existing points true = some g := by
  obtain ⟨g, hg⟩ := Geometry.exists_ofHull (Hull.vertices_ne_nil hapart hp)
  refine ⟨g, hg, ?_⟩
  rw [hull_rebuilt, hg, Option.some_or]

end DensityClustering
