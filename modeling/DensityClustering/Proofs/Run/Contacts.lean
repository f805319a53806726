import DensityClustering.Proofs.Cluster.Survey
import DensityClustering.Proofs.Run.Storage

/-!
Who is in contact with whom. Of two stored ids the one that is visited first is the center from which
their distance is measured, so that contact depends on the order of the visits.
-/

namespace DensityClustering

namespace Clustering

/-- The centers that were handed over, in the order of the journal. -/
def visits {L : Type} (journal : List (Event L)) : List ItemId :=
  journal.filterMap fun
    | .completed center _ => some center
    | _ => none

variable {S : Type}

/-- The ids of a run, and what their items count for. -/
def survey (config : RunConfig) (items : List (ClusterItem S × Bool))
    (hids : (items.map fun i => i.1.id).Nodup) (hpos : 0 < config.minOwners) : Survey where
  ids := items.map fun i => i.1.id
  distinct := hids
  weight p := (items.find? fun i => decide (i.1.id = p)).elim 0 fun i => i.1.count
  threshold := config.minOwners
  positive := hpos

theorem weight_survey {config : RunConfig} {items : List (ClusterItem S × Bool)}
    (hids : (items.map fun i => i.1.id).Nodup) (hpos : 0 < config.minOwners)
    {i : ClusterItem S × Bool} (hi : i ∈ items) :
    (survey config items hids hpos).weight i.1.id = i.1.count := by
  show (items.find? fun j => decide (j.1.id = i.1.id)).elim 0 (fun i => i.1.count) = _
  cases hf : items.find? fun j => decide (j.1.id = i.1.id) with
  | none =>
    have hno := List.find?_eq_none.mp hf i hi
    simp at hno
  | some j =>
    have hj := List.mem_of_find?_eq_some hf
    have hid := List.find?_some hf
    rw [decide_eq_true_eq] at hid
    rw [Option.elim_some, eq_of_mem_of_id_eq hids hj hi hid]

variable [Scalar S]

/-- Two items are adjacent when the one that was visited first finds the other one close. -/
def adjacent (config : RunConfig) (place : ClusterItem S → Placement) (visits : List ItemId)
    (a b : ClusterItem S) : Bool :=
  decide (a.id ≠ b.id) &&
    if visits.idxOf b.id < visits.idxOf a.id then isClose config place b a
    else isClose config place a b

/-- The number of stored items adjacent to one. -/
def adjacentCount (config : RunConfig) (place : ClusterItem S → Placement)
    (items : List (ClusterItem S × Bool)) (visits : List ItemId) (a : ClusterItem S) : Nat :=
  items.countP fun i => adjacent config place visits a i.1

/-- An item and those adjacent to it count for a cluster of their own. -/
def IsCore (config : RunConfig) (place : ClusterItem S → Placement)
    (items : List (ClusterItem S × Bool)) (visits : List ItemId) (a : ClusterItem S) : Prop :=
  config.minOwners ≤ a.count + adjacentCount config place items visits a

/-- The stored items of two ids are close, seen from the first one. -/
def near (config : RunConfig) (place : ClusterItem S → Placement)
    (items : List (ClusterItem S × Bool)) (p q : ItemId) : Bool :=
  items.any fun i => items.any fun j =>
    decide (i.1.id = p) && decide (j.1.id = q) && isClose config place i.1 j.1

/-- A primary was put in contact with an id by visiting one of the two. -/
def contact (config : RunConfig) (place : ClusterItem S → Placement)
    (items : List (ClusterItem S × Bool)) (visits : List ItemId) (p q : ItemId) : Bool :=
  (items.any fun i => decide (i.1.id = p) && i.2) && decide (p ≠ q) &&
    if visits.idxOf q < visits.idxOf p then near config place items q p
    else decide (p ∈ visits) && near config place items p q

variable {config : RunConfig} {place : ClusterItem S → Placement}
  {items : List (ClusterItem S × Bool)} {order : List ItemId} {p q center : ItemId}

theorem near_eq_true : near config place items p q = true ↔
    ∃ i ∈ items, ∃ j ∈ items, i.1.id = p ∧ j.1.id = q ∧ isClose config place i.1 j.1 = true := by
  simp only [near, List.any_eq_true, Bool.and_eq_true, decide_eq_true_eq, and_assoc]

theorem near_of_mem (hids : (items.map fun i => i.1.id).Nodup) {i j : ClusterItem S × Bool}
    (hi : i ∈ items) (hj : j ∈ items) :
    near config place items i.1.id j.1.id = isClose config place i.1 j.1 := by
  rw [Bool.eq_iff_iff, near_eq_true]
  constructor
  · rintro ⟨i', hi', j', hj', hii, hjj, hclose⟩
    cases eq_of_mem_of_id_eq hids hi' hi hii
    cases eq_of_mem_of_id_eq hids hj' hj hjj
    exact hclose
  · exact fun hclose => ⟨i, hi, j, hj, rfl, rfl, hclose⟩

theorem mem_of_idxOf_lt (h : order.idxOf p < order.idxOf q) : p ∈ order := by
  have hlen := List.idxOf_le_length (a := q) (l := order)
  exact List.idxOf_lt_length_iff.mp (by omega)

theorem contact_eq_true : contact config place items order p q = true ↔
    IsPrimary items p ∧ p ≠ q ∧
      ((order.idxOf q < order.idxOf p ∧ near config place items q p = true) ∨
        (order.idxOf p < order.idxOf q ∧ near config place items p q = true)) := by
  unfold contact
  rw [Bool.and_eq_true, Bool.and_eq_true, any_isPrimary, decide_eq_true_eq, and_assoc]
  refine and_congr_right fun _ => and_congr_right fun hne => ?_
  by_cases h : order.idxOf q < order.idxOf p
  · have hno : ¬order.idxOf p < order.idxOf q := by omega
    simp only [h, hno, if_true, true_and, false_and, or_false]
  -- Neither of two distinct ids is first only when neither was visited.
  · have hin : p ∈ order ↔ order.idxOf p < order.idxOf q := by
      refine ⟨fun hp => ?_, mem_of_idxOf_lt⟩
      have heq : order.idxOf p ≠ order.idxOf q := fun e => hne ((List.idxOf_inj hp).mp e)
      omega
    simp only [h, if_false, false_and, false_or, Bool.and_eq_true, decide_eq_true_eq, hin]

theorem not_contact_of_not_mem (hp : p ∉ order) (hq : q ∉ order) :
    contact config place items order p q = false := by
  rw [← Bool.not_eq_true, contact_eq_true]
  rintro ⟨-, -, ⟨hlt, -⟩ | ⟨hlt, -⟩⟩
  · exact hq (mem_of_idxOf_lt hlt)
  · exact hp (mem_of_idxOf_lt hlt)

/-- Contact of primaries is mutual. -/
theorem contact_symm (hq : IsPrimary items q) (h : contact config place items order p q = true) :
    contact config place items order q p = true := by
  rw [contact_eq_true] at h ⊢
  exact ⟨hq, h.2.1.symm, h.2.2.symm⟩

/-- A visit comes before those that are still to follow, and changes no earlier order. -/
theorem idxOf_lt_concat (hcenter : center ∉ order) (hne : p ≠ q) :
    (order ++ [center]).idxOf p < (order ++ [center]).idxOf q ↔
      order.idxOf p < order.idxOf q ∨ (p = center ∧ q ∉ order) := by
  have hlast : (order ++ [center]).idxOf center = order.length := by
    rw [List.idxOf_append, if_neg hcenter]
    simp
  -- Where an id stands before and after: visited ids keep their place, and the others move up.
  have hplace : ∀ a, (a ∈ order ∧ a ≠ center ∧ order.idxOf a < order.length ∧
        (order ++ [center]).idxOf a = order.idxOf a) ∨
      (a ∉ order ∧ order.idxOf a = order.length ∧
        (order ++ [center]).idxOf a = if a = center then order.length else order.length + 1) := by
    intro a
    by_cases hin : a ∈ order
    · refine Or.inl ⟨hin, fun e => hcenter (e ▸ hin), List.idxOf_lt_length_iff.mpr hin, ?_⟩
      rw [List.idxOf_append, if_pos hin]
    · refine Or.inr ⟨hin, List.idxOf_eq_length hin, ?_⟩
      by_cases ha : a = center
      · rw [if_pos ha, ha, hlast]
      · rw [if_neg ha, List.idxOf_append, if_neg hin, List.idxOf_eq_length (by simpa using ha),
          List.length_singleton, Nat.add_comm]
  rcases hplace p with ⟨hp, hpc, hp₁, hp₂⟩ | ⟨hp, hp₁, hp₂⟩ <;>
    rcases hplace q with ⟨hq, hqc, hq₁, hq₂⟩ | ⟨hq, hq₁, hq₂⟩
  · simp only [hp₂, hq₂, hpc, false_and, or_false]
  · simp only [hp₂, hq₂, hpc, false_and, or_false]
    split <;> omega
  · simp only [hp₂, hq₂, hq, not_true_eq_false, and_false, or_false]
    split <;> omega
  · simp only [hp₁, hp₂, hq₁, hq₂, hq, not_false_eq_true, and_true, Nat.lt_irrefl, false_or]
    by_cases hpc : p = center
    · have hqc : q ≠ center := fun e => hne (hpc.trans e.symm)
      simp [hpc, hqc]
    · simp only [hpc, if_false, iff_false]
      split <;> omega

/-- A visit adds the contacts of its center with ids that were not visited before. -/
theorem contact_concat (hcenter : center ∉ order) (hprimary : IsPrimary items center) :
    contact config place items (order ++ [center]) p q = true ↔
      contact config place items order p q = true ∨
      (p = center ∧ q ≠ center ∧ q ∉ order ∧ near config place items center q = true) ∨
      (q = center ∧ p ≠ center ∧ p ∉ order ∧ IsPrimary items p ∧
        near config place items center p = true) := by
  rw [contact_eq_true, contact_eq_true]
  by_cases hne : p = q
  · subst hne
    simp
    tauto
  · rw [idxOf_lt_concat hcenter hne, idxOf_lt_concat hcenter fun e => hne e.symm]
    -- A contact that is new has the center on one side, and on the other an id not visited yet.
    constructor
    · rintro ⟨hp, -, ⟨hlt | ⟨rfl, hin⟩, hnear⟩ | ⟨hlt | ⟨rfl, hin⟩, hnear⟩⟩
      · exact Or.inl ⟨hp, hne, Or.inl ⟨hlt, hnear⟩⟩
      · exact Or.inr (Or.inr ⟨rfl, hne, hin, hp, hnear⟩)
      · exact Or.inl ⟨hp, hne, Or.inr ⟨hlt, hnear⟩⟩
      · exact Or.inr (Or.inl ⟨rfl, fun e => hne e.symm, hin, hnear⟩)
    · rintro (⟨hp, -, ⟨hlt, hnear⟩ | ⟨hlt, hnear⟩⟩ | ⟨rfl, hqc, hin, hnear⟩ |
        ⟨rfl, -, hin, hp, hnear⟩)
      · exact ⟨hp, hne, Or.inl ⟨Or.inl hlt, hnear⟩⟩
      · exact ⟨hp, hne, Or.inr ⟨Or.inl hlt, hnear⟩⟩
      · exact ⟨hprimary, hne, Or.inr ⟨Or.inr ⟨rfl, hin⟩, hnear⟩⟩
      · exact ⟨hp, hne, Or.inl ⟨Or.inr ⟨rfl, hin⟩, hnear⟩⟩

theorem contact_eq_adjacent (hids : (items.map fun i => i.1.id).Nodup) {a : ClusterItem S}
    (ha : (a, true) ∈ items) {j : ClusterItem S × Bool} (hj : j ∈ items) (hin : a.id ∈ order) :
    contact config place items order a.id j.1.id = adjacent config place order a j.1 := by
  unfold contact adjacent
  rw [any_isPrimary.mpr ⟨a, ha, rfl⟩, near_of_mem hids hj ha, near_of_mem hids ha hj,
    Bool.true_and, decide_eq_true hin, Bool.true_and]

/-- What a primary counts for with its contacts, once all primaries were visited. -/
theorem mass_survey (hids : (items.map fun i => i.1.id).Nodup) (hpos : 0 < config.minOwners)
    {a : ClusterItem S} (ha : (a, true) ∈ items) (hin : a.id ∈ order) :
    (survey config items hids hpos).mass (contact config place items order) a.id =
      a.count + adjacentCount config place items order a := by
  have hweight := weight_survey hids hpos ha
  unfold Survey.mass
  rw [hweight]
  show a.count + (items.map fun i => i.1.id).countP (contact config place items order a.id) = _
  rw [List.countP_map, adjacentCount]
  congr 1
  refine List.countP_congr fun j hj => ?_
  rw [Function.comp_apply, contact_eq_adjacent hids ha hj hin]

theorem visits_reverse {L : Type} (journal : List (Event L)) :
    visits journal.reverse = (visits journal).reverse := by
  rw [visits, List.filterMap_reverse]
  rfl

end Clustering

end DensityClustering
