import Std.Data.ExtTreeMap
import DensityClustering.Neighbor.List

/-!
The neighbour lists of one traversal, by center. A list is built when its center first comes up, and
once emptied it never comes back. The journal tells what was asked of whom.
-/

namespace DensityClustering

open Std (ExtTreeMap)

/-- What a traversal did that others can see. -/
inductive Event (L : Type) where
  | built (center : ItemId)
  /-- The distance from a center to a neighbour was asked for. -/
  | measured (center neighbor : ItemId)
  | completed (center : ItemId) (list : L)

inductive Slot (L : Type) where
  | live (list : L)
  | emptied

/-- The lists of a traversal, the state they share, and the journal, last event first. -/
structure NeighborIndex (σ L : Type) where
  shared : σ
  slots : ExtTreeMap ItemId (Slot L)
  journal : List (Event L)

namespace NeighborIndex

variable {σ V C L : Type}

def start (shared : σ) : NeighborIndex σ L := ⟨shared, ∅, []⟩

def put (index : NeighborIndex σ L) (id : ItemId) (list : L) : NeighborIndex σ L :=
  { index with slots := index.slots.insert id (.live list) }

def find (index : NeighborIndex σ L) (id : ItemId) : Option L :=
  match index.slots[id]? with
  | some (.live list) => some list
  | _ => none

/-- The list of `id`, built now if the id is new; none once it was emptied. -/
def init (kind : ListKind σ V C L) (index : NeighborIndex σ L) (id : ItemId) (value : V) :
    NeighborIndex σ L × Option L :=
  match index.slots[id]? with
  | some (.live list) => (index, some list)
  | some .emptied => (index, none)
  | none =>
    let (list, shared) := kind.build id value index.shared
    ({ index with shared := shared, journal := .built id :: index.journal }.put id list, some list)

/-- What the center's list says about a neighbour; without a live list it is to be skipped. -/
def infer (kind : ListKind σ V C L) (index : NeighborIndex σ L) (center neighbor : ItemId)
    (value : V) : Inference :=
  match index.find center with
  | some list => kind.infer list neighbor value index.shared
  | none => .skip

/-- Offers a neighbour to the center's list, which is built if need be. -/
def offer (kind : ListKind σ V C L) (index : NeighborIndex σ L) (profile : DistanceProfile C)
    (center : ItemId) (centerValue : V) (neighbor : ItemId) (neighborValue : V) :
    NeighborIndex σ L × Bool :=
  match index.init kind center centerValue with
  | (index, none) => (index, false)
  | (index, some list) =>
    let (accepted, list, shared) := kind.add list profile neighbor neighborValue index.shared
    ({ index with shared := shared }.put center list, accepted)

/-- Offers a neighbour to the center's list and, when `reciprocal`, the center to the neighbour's.
The answer is that of the center's list. -/
def add (kind : ListKind σ V C L) (index : NeighborIndex σ L) (profile : DistanceProfile C)
    (center : ItemId) (centerValue : V) (neighbor : ItemId) (neighborValue : V)
    (reciprocal : Bool) : NeighborIndex σ L × Bool :=
  let (index, accepted) := index.offer kind profile center centerValue neighbor neighborValue
  if reciprocal then
    ((index.offer kind profile neighbor neighborValue center centerValue).1, accepted)
  else (index, accepted)

def empty (index : NeighborIndex σ L) (id : ItemId) : NeighborIndex σ L :=
  { index with slots := index.slots.insert id .emptied }

def note (index : NeighborIndex σ L) (event : Event L) : NeighborIndex σ L :=
  { index with journal := event :: index.journal }

end NeighborIndex

end DensityClustering
