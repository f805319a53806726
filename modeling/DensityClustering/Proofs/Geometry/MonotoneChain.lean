import Mathlib.Data.List.Chain
import Mathlib.Data.List.Induction
import DensityClustering.Proofs.Geometry.Orientation

/-!
The chain round one side of points that come in the order of a sweep. It is made of the points that
the way round turns left at, wherever it comes from and wherever it goes to; every other point lies
to the left of the way between two of these.
-/

namespace DensityClustering

namespace Hull

variable {R : Coord Rat → Coord Rat → Prop} {s : List (Coord Rat)} {p v w : Coord Rat}

/-- One of the points `s`, at which every way from one of them before it to one after it turns
left. -/
def Corner (R : Coord Rat → Coord Rat → Prop) (s : List (Coord Rat)) (v : Coord Rat) : Prop :=
  v ∈ s ∧ ∀ a ∈ s, ∀ b ∈ s, R a v → R v b → Turn a v b

/-- A corner of some points is one of fewer points, if it is among them. -/
theorem Corner.of_subset {s' : List (Coord Rat)} (h : Corner R s v) (hsub : s' ⊆ s)
    (hmem : v ∈ s') : Corner R s' v :=
  ⟨hmem, fun a ha b hb => h.2 a (hsub ha) b (hsub hb)⟩

/-- With one more point after all others, a corner stays one if the way to it turns left. -/
theorem Corner.concat (hR : Sweep R) (h : Corner R s v) (hnext : ∀ w ∈ s, R w p)
    (hturn : ∀ a ∈ s, R a v → Turn a v p) : Corner R (s ++ [p]) v := by
  refine ⟨List.mem_append_left _ h.1, fun a ha b hb hav hvb => ?_⟩
  rcases List.mem_append.mp ha with ha | ha
  · rcases List.mem_append.mp hb with hb | hb
    · exact h.2 a ha b hb hav hvb
    · rw [List.mem_singleton.mp hb]
      exact hturn a ha hav
  · rw [List.mem_singleton.mp ha] at hav
    exact absurd (hnext v h.1) (hR.asymm hav)

/-- The last point is a corner. -/
theorem corner_last (hR : Sweep R) (hnext : ∀ w ∈ s, R w p) : Corner R (s ++ [p]) p := by
  refine ⟨List.mem_append_right _ (List.mem_singleton_self p), fun a _ b hb _ hpb => ?_⟩
  rcases List.mem_append.mp hb with hb | hb
  · exact absurd (hnext b hb) (hR.asymm hpb)
  · rw [List.mem_singleton.mp hb] at hpb
    exact absurd hpb (hR.irrefl p)

/-- Corners of `s`, the last one first, that start before all of `s`; between two that follow one
another, all of `s` lies to the left of the way. -/
structure Chain (R : Coord Rat → Coord Rat → Prop) (s stack : List (Coord Rat)) : Prop where
  descending : stack.Pairwise fun v u => R u v
  corner : ∀ v ∈ stack, Corner R s v
  flank : stack.IsChain fun v u => ∀ w ∈ s, R u w → R w v → ¬Turn u w v
  start : ∀ w ∈ s, ∃ u ∈ stack, u = w ∨ R u w

namespace Chain

variable {t u : Coord Rat} {stack rest : List (Coord Rat)}

/-- A chain without its last corner. -/
theorem pop (hR : Sweep R) (h : Chain R s (t :: u :: rest)) : Chain R s (u :: rest) where
  descending := h.descending.of_cons
  corner v hv := h.corner v (List.mem_cons_of_mem _ hv)
  flank := h.flank.tail
  start w hw := by
    obtain ⟨v, hv, hvw⟩ := h.start w hw
    rcases List.mem_cons.mp hv with rfl | hv
    · -- The corner below starts even earlier.
      have hut : R u v := List.rel_of_pairwise_cons h.descending List.mem_cons_self
      refine ⟨u, List.mem_cons_self, Or.inr ?_⟩
      rcases hvw with rfl | hvw
      · exact hut
      · exact hR.trans hut hvw
    · exact ⟨v, hv, hvw⟩

/-- With `p` after all of `s`: every point after `t` lies to the left of the way from `t` to `p`. -/
def Clear (R : Coord Rat → Coord Rat → Prop) (s : List (Coord Rat)) (p t : Coord Rat) : Prop :=
  ∀ w ∈ s, R t w → ¬Turn t w p

/-- Where the way does not turn left at the last corner, the one below is clear without it. -/
theorem clear_pop (hR : Sweep R) (h : Chain R s (t :: u :: rest)) (hnext : ∀ w ∈ s, R w p)
    (hclear : Clear R s p t) (hturn : ¬Turn u t p) : Clear R s p u := by
  intro w hw huw
  have htmem : t ∈ s := (h.corner t List.mem_cons_self).1
  have hut : R u t := List.rel_of_pairwise_cons h.descending List.mem_cons_self
  rcases hR.connected w t with rfl | hwt | htw
  · exact hturn
  · have hleft : ¬Turn u w t := (List.isChain_cons_cons.mp h.flank).1 w hw huw hwt
    exact (hR.lined huw hwt (hnext t htmem)).not_turn_without_third hleft hturn
  · exact (hR.lined hut htw (hnext w hw)).not_turn_without_second (hclear w hw htw) hturn

/-- Where the way turns left at the last corner, it does so from every point before it. -/
theorem turn_of_turn (hR : Sweep R) (h : Chain R s (t :: u :: rest)) (hnext : ∀ w ∈ s, R w p)
    (hturn : Turn u t p) (a : Coord Rat) (ha : a ∈ s) (hat : R a t) : Turn a t p := by
  have htmem : t ∈ s := (h.corner t List.mem_cons_self).1
  have hucorner : Corner R s u := h.corner u (List.mem_cons_of_mem _ List.mem_cons_self)
  have hut : R u t := List.rel_of_pairwise_cons h.descending List.mem_cons_self
  rcases hR.connected a u with rfl | hau | hua
  · exact hturn
  · have hfirst : Turn a u t := hucorner.2 a ha t htmem hau hut
    exact (hR.lined hau hut (hnext t htmem)).turn_without_second hfirst hturn
  · have hleft : ¬Turn u a t := (List.isChain_cons_cons.mp h.flank).1 a ha hua hat
    exact (hR.lined hua hat (hnext t htmem)).turn_of_not_turn hleft hturn

/-- A chain that the next point `p` can go on top of: the last corner is clear, and the way turns
left there. -/
structure Open (R : Coord Rat → Coord Rat → Prop) (s stack : List (Coord Rat))
    (p : Coord Rat) : Prop extends Chain R s stack where
  clear : ∀ t ∈ stack.head?, Clear R s p t
  turn : ∀ t ∈ stack.head?, ∀ a ∈ s, R a t → Turn a t p

/-- Retreating from a clear corner opens the chain for the next point. -/
theorem retreat (hR : Sweep R) (h : Chain R s stack) (hnext : ∀ w ∈ s, R w p)
    (hclear : ∀ t ∈ stack.head?, Clear R s p t) : Open R s (Hull.retreat p stack) p := by
  induction stack using Hull.retreat.induct p with
  | case1 t u rest hle ih =>
    have htop : Clear R s p t := hclear t rfl
    have hbelow : Clear R s p u := h.clear_pop hR hnext htop (not_turn_iff.mpr hle)
    rw [Hull.retreat, if_pos hle]
    refine ih (h.pop hR) fun r hr => ?_
    cases hr
    exact hbelow
  | case2 t u rest hle =>
    rw [Hull.retreat, if_neg hle]
    refine ⟨h, hclear, fun r hr => ?_⟩
    cases hr
    exact h.turn_of_turn hR hnext (lt_of_not_ge hle)
  | case3 stack hshort =>
    have hsame : Hull.retreat p stack = stack := by
      unfold Hull.retreat
      split
      · next t u rest => exact absurd rfl (hshort t u rest)
      · rfl
    rw [hsame]
    refine ⟨h, hclear, fun t ht a ha hat => ?_⟩
    -- The only corner is the first of all points.
    obtain rfl : stack = [t] := by
      match stack, hshort with
      | [], _ => cases ht
      | [r], _ =>
        cases ht
        rfl
      | r :: r' :: rest, hshort => exact absurd rfl (hshort r r' rest)
    obtain ⟨r, hr, hra⟩ := h.start a ha
    obtain rfl : r = t := List.mem_singleton.mp hr
    rcases hra with rfl | hra
    · exact absurd hat (hR.irrefl r)
    · exact absurd hra (hR.asymm hat)

/-- Where a chain is open, the way to the next point turns left at every corner. -/
theorem Open.turn_of_mem (hR : Sweep R) (h : Open R s stack p) (hnext : ∀ w ∈ s, R w p)
    (hv : v ∈ stack) (a : Coord Rat) (ha : a ∈ s) (hav : R a v) : Turn a v p := by
  cases stack with
  | nil => cases hv
  | cons t rest =>
    rcases List.mem_cons.mp hv with rfl | hvrest
    · exact h.turn v rfl a ha hav
    · have hvmem : v ∈ s := (h.corner v hv).1
      have htmem : t ∈ s := (h.corner t List.mem_cons_self).1
      have hvt : R v t := List.rel_of_pairwise_cons h.descending hvrest
      have hbefore : Turn a v t := (h.corner v hv).2 a ha t htmem hav hvt
      have hlast : Turn v t p := h.turn t rfl v hvmem hvt
      exact (hR.lined hav hvt (hnext t htmem)).turn_without_third hbefore hlast

/-- The next point goes on top of an open chain. -/
theorem Open.push (hR : Sweep R) (h : Open R s stack p) (hnext : ∀ w ∈ s, R w p) :
    Chain R (s ++ [p]) (p :: stack) where
  descending := List.pairwise_cons.mpr ⟨fun v hv => hnext v (h.corner v hv).1, h.descending⟩
  corner v hv := by
    rcases List.mem_cons.mp hv with rfl | hv
    · exact corner_last hR hnext
    · exact (h.corner v hv).concat hR hnext fun a ha => h.turn_of_mem hR hnext hv a ha
  flank := by
    refine List.isChain_cons.mpr ⟨fun t ht w hw htw hwp => ?_, ?_⟩
    · rcases List.mem_append.mp hw with hw | hw
      · exact h.clear t ht w hw htw
      · rw [List.mem_singleton.mp hw] at hwp
        exact absurd hwp (hR.irrefl p)
    · refine h.flank.imp_of_mem_imp fun v u hv _ hold w hw huw hwv => ?_
      rcases List.mem_append.mp hw with hw | hw
      · exact hold w hw huw hwv
      · rw [List.mem_singleton.mp hw] at hwv
        exact absurd (hnext v (h.corner v hv).1) (hR.asymm hwv)
  start w hw := by
    rcases List.mem_append.mp hw with hw | hw
    · obtain ⟨u, hu, huw⟩ := h.start w hw
      exact ⟨u, List.mem_cons_of_mem _ hu, huw⟩
    · exact ⟨p, List.mem_cons_self, Or.inl (List.mem_singleton.mp hw).symm⟩

/-- What is not on the chain, and not after it, lies to the left of the way between two corners. -/
theorem passed (hR : Sweep R) (h : Chain R s stack) (hw : w ∈ s) (hnot : w ∉ stack)
    (hend : ∀ t ∈ stack.head?, R w t) :
    ∃ u ∈ stack, ∃ v ∈ stack, R u w ∧ R w v ∧ ¬Turn u w v := by
  induction stack with
  | nil =>
    obtain ⟨u, hu, -⟩ := h.start w hw
    cases hu
  | cons t rest ih =>
    have hwt : R w t := hend t rfl
    cases rest with
    | nil =>
      obtain ⟨u, hu, huw⟩ := h.start w hw
      obtain rfl : u = t := List.mem_singleton.mp hu
      rcases huw with rfl | huw
      · exact absurd hu hnot
      · exact absurd huw (hR.asymm hwt)
    | cons u rest =>
      rcases hR.connected w u with rfl | hwu | huw
      · exact absurd (List.mem_cons_of_mem _ List.mem_cons_self) hnot
      · have hbelow : ∃ v ∈ u :: rest, ∃ v' ∈ u :: rest, R v w ∧ R w v' ∧ ¬Turn v w v' := by
          refine ih (h.pop hR) (fun hmem => hnot (List.mem_cons_of_mem _ hmem)) fun r hr => ?_
          cases hr
          exact hwu
        obtain ⟨v, hv, v', hv', hbetween⟩ := hbelow
        exact ⟨v, List.mem_cons_of_mem _ hv, v', List.mem_cons_of_mem _ hv', hbetween⟩
      · exact ⟨u, List.mem_cons_of_mem _ List.mem_cons_self, t, List.mem_cons_self, huw, hwt,
          (List.isChain_cons_cons.mp h.flank).1 w hw huw hwt⟩

/-- From each corner to the next, none of the points lies to the right. -/
theorem beside (hR : Sweep R) (h : Chain R s stack) :
    stack.reverse.IsChain fun u v => ∀ w ∈ s, 0 ≤ cross u v w := by
  rw [List.isChain_reverse]
  induction stack with
  | nil => exact .nil
  | cons t rest ih =>
    cases rest with
    | nil => exact .singleton t
    | cons u rest =>
      refine List.isChain_cons_cons.mpr ⟨fun w hw => ?_, ih (h.pop hR)⟩
      have hut : R u t := List.rel_of_pairwise_cons h.descending List.mem_cons_self
      have ht : Corner R s t := h.corner t List.mem_cons_self
      have hu : Corner R s u := h.corner u (List.mem_cons_of_mem _ List.mem_cons_self)
      rcases hR.connected w u with rfl | hwu | huw
      · exact (cross_self_left w t).ge
      · have hturn : Turn w u t := hu.2 w hw t ht.1 hwu hut
        exact hturn.rotate.le
      rcases hR.connected w t with rfl | hwt | htw
      · exact (cross_self_right u w).ge
      · have hleft : ¬Turn u w t := (List.isChain_cons_cons.mp h.flank).1 w hw huw hwt
        rw [cross_swap]
        exact neg_nonneg.mpr (not_turn_iff.mp hleft)
      · exact (ht.2 u hu.1 w hw hut htw).le

end Chain

theorem chain_concat (s : List (Coord Rat)) (p : Coord Rat) :
    chain (s ++ [p]) = p :: retreat p (chain s) :=
  List.foldl_append

/-- The chain ends at the last of the points. -/
theorem head?_chain (s : List (Coord Rat)) : (chain s).head? = s.getLast? := by
  cases s using List.reverseRecOn with
  | nil => rfl
  | append_singleton s p => rw [chain_concat, List.getLast?_concat, List.head?_cons]

theorem getLast?_retreat (p : Coord Rat) (stack : List (Coord Rat)) :
    (retreat p stack).getLast? = stack.getLast? := by
  induction stack using Hull.retreat.induct p with
  | case1 t u rest hle ih => rw [Hull.retreat, if_pos hle, ih, List.getLast?_cons_cons]
  | case2 t u rest hle => rw [Hull.retreat, if_neg hle]
  | case3 stack hshort =>
    unfold Hull.retreat
    split
    · next t u rest => exact absurd rfl (hshort t u rest)
    · rfl

/-- The chain begins with the first of the points. -/
theorem getLast?_chain (s : List (Coord Rat)) : (chain s).getLast? = s.head? := by
  induction s using List.reverseRecOn with
  | nil => rfl
  | append_singleton s p ih =>
    rw [chain_concat, List.getLast?_cons, getLast?_retreat, ih]
    cases s <;> rfl

theorem chain_chain (hR : Sweep R) (hs : s.Pairwise R) : Chain R s (chain s) := by
  induction s using List.reverseRecOn with
  | nil => exact ⟨.nil, nofun, .nil, nofun⟩
  | append_singleton s p ih =>
    obtain ⟨hsorted, -, hnext⟩ := List.pairwise_append.mp hs
    have hlast : ∀ w ∈ s, R w p := fun w hw => hnext w hw p (List.mem_singleton_self p)
    rw [chain_concat]
    refine ((ih hsorted).retreat hR hlast fun t ht w hw htw => ?_).push hR hlast
    -- No point comes after the last one.
    rw [head?_chain] at ht
    obtain ⟨before, rfl⟩ := List.getLast?_eq_some_iff.mp ht
    rcases List.mem_append.mp hw with hw | hw
    · exact absurd htw (hR.asymm ((List.pairwise_append.mp hsorted).2.2 w hw t
        (List.mem_singleton_self t)))
    · rw [List.mem_singleton.mp hw] at htw
      exact absurd htw (hR.irrefl t)

/-- Every point that is not on the chain lies to the left of the way between two that are. -/
theorem passed_of_not_mem_chain (hR : Sweep R) (hs : s.Pairwise R) (hw : w ∈ s)
    (hnot : w ∉ chain s) : ∃ u ∈ chain s, ∃ v ∈ chain s, R u w ∧ R w v ∧ ¬Turn u w v := by
  refine (chain_chain hR hs).passed hR hw hnot fun t ht => ?_
  have hmem : t ∈ chain s := List.mem_of_head? ht
  rw [head?_chain] at ht
  obtain ⟨before, rfl⟩ := List.getLast?_eq_some_iff.mp ht
  rcases List.mem_append.mp hw with hw | hw
  · exact (List.pairwise_append.mp hs).2.2 w hw t (List.mem_singleton_self t)
  · rw [List.mem_singleton.mp hw] at hnot
    exact absurd hmem hnot

/-- The chain is made of the corners. -/
theorem mem_chain (hR : Sweep R) (hs : s.Pairwise R) : v ∈ chain s ↔ Corner R s v := by
  refine ⟨(chain_chain hR hs).corner v, fun hv => Classical.byContradiction fun hnot => ?_⟩
  obtain ⟨a, ha, b, hb, hav, hvb, hleft⟩ := passed_of_not_mem_chain hR hs hv.1 hnot
  have hcorner := (chain_chain hR hs).corner
  exact hleft (hv.2 a (hcorner a ha).1 b (hcorner b hb).1 hav hvb)

end Hull

end DensityClustering
