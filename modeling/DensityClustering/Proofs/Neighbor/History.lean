import DensityClustering.Neighbor.Traversal
import DensityClustering.Proofs.Neighbor.PartitionRelation

/-!
The groups that additions and removals lead to. In all of them ids and cells know each other in both
directions, and no id is a primary and one of the others at once.
-/

namespace DensityClustering

open Std (ExtTreeMap ExtTreeSet)

namespace PartitionIndex

variable {V : Type} (index : PartitionIndex V) (id id' : ItemId) (key : PartitionKey)

theorem getD_leave_of_ne (cells : ExtTreeMap PartitionKey Cell) {key' : PartitionKey}
    (h : key ≠ key') :
    (leave cells id key').getD key Cell.fresh = cells.getD key Cell.fresh := by
  have hne : ¬compare key' key = .eq := by
    rw [Std.LawfulEqCmp.compare_eq_iff_eq]
    exact fun he => h he.symm
  unfold leave
  split
  · rw [ExtTreeMap.getD_insert, if_neg hne]
  · rfl

theorem mem_members_leave (cells : ExtTreeMap PartitionKey Cell) (key' : PartitionKey) :
    id' ∈ ((leave cells id key').getD key Cell.fresh).members ↔
      id' ∈ (cells.getD key Cell.fresh).members ∧ ¬(id' = id ∧ key = key') := by
  by_cases hkey : key = key'
  · subst hkey
    unfold leave
    cases hcell : cells[key]? with
    | none =>
      have hfresh : cells.getD key Cell.fresh = Cell.fresh := by
        rw [ExtTreeMap.getD_eq_getD_getElem?, hcell]
        rfl
      have hempty : id' ∉ Cell.fresh.members := ExtTreeSet.not_mem_empty
      dsimp only
      rw [hfresh]
      exact iff_of_false hempty fun h => hempty h.1
    | some cell =>
      have hget : cells.getD key Cell.fresh = cell := by
        rw [ExtTreeMap.getD_eq_getD_getElem?, hcell]
        rfl
      dsimp only
      rw [hget, ExtTreeMap.getD_insert_self, ExtTreeSet.mem_erase, Ne,
        Std.LawfulEqCmp.compare_eq_iff_eq]
      simp [and_comm, eq_comm]
  · rw [getD_leave_of_ne id key cells hkey]
    exact (and_iff_left fun h => hkey h.2).symm

theorem mem_members_remove : id' ∈ (index.remove id).members key ↔
    id' ∈ index.members key ∧ ¬(id' = id ∧ key ∈ index.partitionsOf id) := by
  have hfold (keys : List PartitionKey) (cells : ExtTreeMap PartitionKey Cell) :
      id' ∈ ((keys.foldl (fun cells key => leave cells id key) cells).getD key
        Cell.fresh).members ↔
      id' ∈ (cells.getD key Cell.fresh).members ∧ ¬(id' = id ∧ key ∈ keys) := by
    induction keys generalizing cells with
    | nil => simp
    | cons key' keys ih =>
      rw [List.foldl_cons, ih, mem_members_leave, and_assoc, List.mem_cons, ← not_or, ← and_or_left]
  unfold members remove
  rw [ExtTreeSet.mem_toList, ExtTreeSet.mem_toList, hfold]
  rfl

theorem mem_partitionsOf_remove : key ∈ (index.remove id).partitionsOf id' ↔
    key ∈ index.partitionsOf id' ∧ id' ≠ id := by
  unfold partitionsOf remove
  dsimp only
  rw [ExtTreeSet.mem_toList, ExtTreeSet.mem_toList, ExtTreeMap.getD_erase]
  by_cases h : id' = id
  · subst h
    simp
  · have hne : ¬compare id id' = .eq := by
      rw [Std.LawfulEqCmp.compare_eq_iff_eq]
      exact fun e => h e.symm
    rw [if_neg hne, and_iff_left h]

theorem stored_remove (primary : Bool) : (index.remove id).stored primary id' =
    if id' = id then none else index.stored primary id' := by
  cases primary
  all_goals
    simp only [stored, PartitionIndex.primary, other, remove, ExtTreeMap.getElem?_erase,
      Std.LawfulEqCmp.compare_eq_iff_eq, eq_comm (a := id'), Bool.false_eq_true, if_true, if_false]

/-- Ids and cells know each other in both directions, and no id is stored twice. -/
structure Sound (index : PartitionIndex V) : Prop where
  mirrored : ∀ id key, id ∈ index.members key ↔ key ∈ index.partitionsOf id
  exclusive : ∀ id, index.stored true id = none ∨ index.stored false id = none

variable {index}

theorem sound_empty : Sound (empty : PartitionIndex V) := by
  refine ⟨fun id key => iff_of_false ?_ ?_, fun id => Or.inl ?_⟩
  · simp [empty, members, Cell.fresh]
  · simp [empty, partitionsOf]
  · simp [empty, stored, PartitionIndex.primary]

theorem Sound.insert (h : Sound index) (id : ItemId) (primary : Bool) (value : V)
    (cells : List Descriptor) : Sound (index.insert id primary value cells) := by
  refine ⟨fun id' key => ?_, fun id' => ?_⟩
  · rw [mem_members_insert, mem_partitionsOf_insert, h.mirrored]
  · rw [stored_insert, stored_insert]
    by_cases hid : id' = id
    · cases primary with
      | true => exact Or.inr (by rw [if_pos hid, if_neg Bool.false_ne_true])
      | false => exact Or.inl (by rw [if_pos hid, if_neg Bool.false_ne_true.symm])
    · rw [if_neg hid, if_neg hid]
      exact h.exclusive id'

theorem Sound.remove (h : Sound index) (id : ItemId) : Sound (index.remove id) := by
  refine ⟨fun id' key => ?_, fun id' => ?_⟩
  · rw [mem_members_remove, mem_partitionsOf_remove, h.mirrored]
    refine and_congr_right fun hkey => not_congr ⟨fun hid => hid.1, fun hid => ⟨hid, ?_⟩⟩
    rw [← hid]
    exact hkey
  · rw [stored_remove, stored_remove]
    by_cases hid : id' = id
    · exact Or.inl (if_pos hid)
    · rw [if_neg hid, if_neg hid]
      exact h.exclusive id'

end PartitionIndex

/-- A call that stores a point, or tries to, or one that forgets an id. -/
inductive Edit (P V : Type) where
  | add (intake : Intake P V) (id : ItemId) (primary : Bool) (raw : P)
  | remove (id : ItemId)

namespace Group

variable {P V : Type}

def edit (g : Group V) : Edit P V → Group V
  | .add intake id primary raw => g.tryAdd intake id primary raw
  | .remove id => g.remove id

/-- The group after a sequence of calls. -/
def edited (maxDistance : Float) (parent : Descriptor) (edits : List (Edit P V)) : Group V :=
  edits.foldl edit (.empty maxDistance parent)

end Group

end DensityClustering
