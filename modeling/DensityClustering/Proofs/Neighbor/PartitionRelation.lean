import Mathlib.Logic.Basic
import DensityClustering.Neighbor.PartitionIndex

/-!
The partition index as a relation between ids and cells, and what inserting an id does to it and to
the stored values.
-/

namespace DensityClustering

open Std (ExtTreeMap ExtTreeSet)

namespace PartitionIndex

variable {V : Type} (index : PartitionIndex V) (id id' : ItemId) (d : Descriptor)
  (key : PartitionKey)

theorem mem_members_link :
    id' ∈ (index.link id d).members key ↔ (id' = id ∧ key = d.key) ∨ id' ∈ index.members key := by
  unfold link members
  dsimp only
  rw [ExtTreeSet.mem_toList, ExtTreeSet.mem_toList, ExtTreeMap.getD_insert]
  by_cases h : d.key = key
  · subst h
    simp only [Std.LawfulEqCmp.compare_eq_iff_eq, if_true, ExtTreeSet.mem_insert, and_true]
    exact or_congr_left eq_comm
  · have h' : key ≠ d.key := fun e => h e.symm
    simp only [Std.LawfulEqCmp.compare_eq_iff_eq, h, h', if_false, and_false, false_or]

theorem mem_partitionsOf_link :
    key ∈ (index.link id d).partitionsOf id' ↔
      (id' = id ∧ key = d.key) ∨ key ∈ index.partitionsOf id' := by
  unfold link partitionsOf
  dsimp only
  rw [ExtTreeSet.mem_toList, ExtTreeSet.mem_toList, ExtTreeMap.getD_insert]
  by_cases h : id = id'
  · subst h
    simp only [Std.LawfulEqCmp.compare_eq_iff_eq, if_true, ExtTreeSet.mem_insert, true_and]
    exact or_congr_left eq_comm
  · have h' : id' ≠ id := fun e => h e.symm
    simp only [Std.LawfulEqCmp.compare_eq_iff_eq, h, h', if_false, false_and, false_or]

theorem mem_members_foldl_link (cells : List Descriptor) :
    id' ∈ (cells.foldl (fun index d => index.link id d) index).members key ↔
      (id' = id ∧ ∃ d ∈ cells, d.key = key) ∨ id' ∈ index.members key := by
  induction cells generalizing index with
  | nil => simp
  | cons d cells ih =>
    rw [List.foldl_cons, ih, mem_members_link]
    simp only [List.mem_cons, exists_eq_or_imp, eq_comm (a := key)]
    rw [and_or_left, or_assoc]
    exact or_left_comm

theorem mem_partitionsOf_foldl_link (cells : List Descriptor) :
    key ∈ (cells.foldl (fun index d => index.link id d) index).partitionsOf id' ↔
      (id' = id ∧ ∃ d ∈ cells, d.key = key) ∨ key ∈ index.partitionsOf id' := by
  induction cells generalizing index with
  | nil => simp
  | cons d cells ih =>
    rw [List.foldl_cons, ih, mem_partitionsOf_link]
    simp only [List.mem_cons, exists_eq_or_imp, eq_comm (a := key)]
    rw [and_or_left, or_assoc]
    exact or_left_comm

theorem values_foldl_link (cells : List Descriptor) :
    (cells.foldl (fun index d => index.link id d) index).primaries = index.primaries ∧
      (cells.foldl (fun index d => index.link id d) index).others = index.others := by
  induction cells generalizing index with
  | nil => exact ⟨rfl, rfl⟩
  | cons d cells ih => exact ih (index.link id d)

variable (primary : Bool) (value : V) (cells : List Descriptor)

theorem mem_members_insert :
    id' ∈ (index.insert id primary value cells).members key ↔
      (id' = id ∧ ∃ d ∈ cells, d.key = key) ∨ id' ∈ index.members key := by
  cases primary
  all_goals exact mem_members_foldl_link ..

theorem mem_partitionsOf_insert :
    key ∈ (index.insert id primary value cells).partitionsOf id' ↔
      (id' = id ∧ ∃ d ∈ cells, d.key = key) ∨ key ∈ index.partitionsOf id' := by
  cases primary
  all_goals exact mem_partitionsOf_foldl_link ..

/-- The value stored for an id, as a primary or as one of the others. -/
def stored (index : PartitionIndex V) (primary : Bool) (id : ItemId) : Option V :=
  if primary then index.primary id else index.other id

/-- An insertion replaces whatever was stored for the id. -/
theorem stored_insert (primary' : Bool) :
    (index.insert id primary value cells).stored primary' id' =
      if id' = id then (if primary' = primary then some value else none)
      else index.stored primary' id' := by
  have hprimaries := (index.values_foldl_link id cells).1
  have hothers := (index.values_foldl_link id cells).2
  cases primary <;> cases primary'
  all_goals
    simp only [stored, PartitionIndex.primary, PartitionIndex.other, insert, hprimaries, hothers,
      ExtTreeMap.getElem?_insert, ExtTreeMap.getElem?_erase, Std.LawfulEqCmp.compare_eq_iff_eq,
      eq_comm (a := id'), Bool.false_eq_true, Bool.true_eq_false, if_true, if_false]

theorem mem_primaryIds : id ∈ index.primaryIds ↔ (index.primary id).isSome = true := by
  rw [primaryIds, primary, ExtTreeMap.mem_keys, ← ExtTreeMap.isSome_getElem?_iff_mem]

end PartitionIndex

end DensityClustering
