/-!
Spatial partitions: the key of a cell, and what a partitioner says about a point in it.
-/

namespace DensityClustering

structure PartitionKey where
  cell : List Int
  deriving DecidableEq, Repr

namespace PartitionKey

instance : Ord PartitionKey := ⟨compareOn cell⟩

instance : Std.TransOrd PartitionKey := inferInstanceAs (Std.TransCmp (compareOn cell))

instance : Std.LawfulEqOrd PartitionKey where
  eq_of_compare {a b} h := by
    obtain ⟨a⟩ := a
    obtain ⟨b⟩ := b
    cases Std.LawfulEqOrd.eq_of_compare (α := List Int) h
    rfl

/-- The coordinates between brackets, separated by commas. -/
def display (key : PartitionKey) : String :=
  "[" ++ ",".intercalate (key.cell.map fun c : Int => c.repr) ++ "]"

end PartitionKey

/-- A cell that a point belongs to, and whether it is the point's own. Two descriptors are the same
when their cells are. -/
structure Descriptor where
  key : PartitionKey
  primary : Bool
  deriving Repr

namespace Descriptor

instance : BEq Descriptor := ⟨fun a b => a.key == b.key⟩

instance : Hashable Descriptor := ⟨fun d => hash d.key.cell⟩

instance : LawfulHashable Descriptor where
  hash_eq a b h := by
    have : a.key = b.key := eq_of_beq h
    simp [hash, this]

end Descriptor

end DensityClustering
