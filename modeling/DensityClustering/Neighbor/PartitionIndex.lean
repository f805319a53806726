import Std.Data.ExtTreeMap
import Std.Data.ExtTreeSet
import DensityClustering.Neighbor.ItemId
import DensityClustering.Neighbor.PartitionKey

/-!
The index of a partition group: which ids lie in which cells, kept in both directions, and the value
stored for each id, as a primary or as one of the others.
-/

namespace DensityClustering

open Std (ExtTreeMap ExtTreeSet)

/-- What is known about a cell: whether any descriptor called it primary, and who lies in it. -/
structure Cell where
  primary : Bool
  members : ExtTreeSet ItemId

def Cell.fresh : Cell := ⟨false, ∅⟩

structure PartitionIndex (V : Type) where
  cells : ExtTreeMap PartitionKey Cell
  keysOf : ExtTreeMap ItemId (ExtTreeSet PartitionKey)
  primaries : ExtTreeMap ItemId V
  others : ExtTreeMap ItemId V

namespace PartitionIndex

variable {V : Type}

def empty : PartitionIndex V := ⟨∅, ∅, ∅, ∅⟩

def link (index : PartitionIndex V) (id : ItemId) (d : Descriptor) : PartitionIndex V :=
  let cell := index.cells.getD d.key Cell.fresh
  let keys := index.keysOf.getD id ∅
  { index with
    cells := index.cells.insert d.key ⟨cell.primary || d.primary, cell.members.insert id⟩
    keysOf := index.keysOf.insert id (keys.insert d.key) }

/-- Stores a value, as a primary or as one of the others, and puts it into its cells. -/
def insert (index : PartitionIndex V) (id : ItemId) (primary : Bool) (value : V)
    (cells : List Descriptor) : PartitionIndex V :=
  let linked := cells.foldl (fun index d => index.link id d) index
  if primary then
    { linked with primaries := linked.primaries.insert id value, others := linked.others.erase id }
  else
    { linked with primaries := linked.primaries.erase id, others := linked.others.insert id value }

def leave (cells : ExtTreeMap PartitionKey Cell) (id : ItemId) (key : PartitionKey) :
    ExtTreeMap PartitionKey Cell :=
  match cells[key]? with
  | some cell => cells.insert key { cell with members := cell.members.erase id }
  | none => cells

/-- Whether anything is stored for `id`, which is what its removal answers. -/
def knows (index : PartitionIndex V) (id : ItemId) : Bool :=
  index.keysOf.contains id || index.primaries.contains id || index.others.contains id

/-- Forgets `id`. The cells it was in stay known. -/
def remove (index : PartitionIndex V) (id : ItemId) : PartitionIndex V :=
  { cells := (index.keysOf.getD id ∅).toList.foldl (fun cells key => leave cells id key) index.cells
    keysOf := index.keysOf.erase id
    primaries := index.primaries.erase id
    others := index.others.erase id }

def partition (index : PartitionIndex V) (key : PartitionKey) : Option Descriptor :=
  index.cells[key]?.map fun cell => ⟨key, cell.primary⟩

def partitionsOf (index : PartitionIndex V) (id : ItemId) : List PartitionKey :=
  (index.keysOf.getD id ∅).toList

def members (index : PartitionIndex V) (key : PartitionKey) : List ItemId :=
  (index.cells.getD key Cell.fresh).members.toList

/-- The ids in the cells of `id`, cell by cell; one that shares several cells comes up repeatedly,
and `id` itself comes up too. -/
def coMembers (index : PartitionIndex V) (id : ItemId) : List ItemId :=
  (index.partitionsOf id).flatMap index.members

def primary (index : PartitionIndex V) (id : ItemId) : Option V := index.primaries[id]?

def other (index : PartitionIndex V) (id : ItemId) : Option V := index.others[id]?

def primaryIds (index : PartitionIndex V) : List ItemId := index.primaries.keys

def primaryCount (index : PartitionIndex V) : Nat := index.primaries.size

def otherCount (index : PartitionIndex V) : Nat := index.others.size

def partitionCount (index : PartitionIndex V) : Nat := index.cells.size

/-- The two directions agree, and no id is both a primary and one of the others. -/
def isConsistent (index : PartitionIndex V) : Bool :=
  let forward := index.keysOf.all fun id keys =>
    keys.toList.all fun key => (index.members key).contains id
  let backward := index.cells.all fun key cell =>
    cell.members.toList.all fun id => (index.partitionsOf id).contains key
  let disjoint := index.primaries.all fun id _ => !index.others.contains id
  forward && backward && disjoint

end PartitionIndex

end DensityClustering
