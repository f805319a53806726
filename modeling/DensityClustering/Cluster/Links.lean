import Std.Data.ExtTreeMap
import Std.Data.ExtTreeSet
import DensityClustering.Neighbor.ItemId

/-!
The links from clusters to the ids they reached but did not merge with, as a relation kept by row
and by column: which ids a cluster links to, and which clusters link to an id.
-/

namespace DensityClustering

open Std (ExtTreeMap ExtTreeSet)

/-- The handle of a cluster; handles are numbered in the order of creation. -/
structure ClusterId where
  number : Nat
  deriving DecidableEq, Repr

namespace ClusterId

instance : Ord ClusterId := ⟨compareOn number⟩

instance : Std.TransOrd ClusterId := inferInstanceAs (Std.TransCmp (compareOn number))

instance : Std.LawfulEqOrd ClusterId where
  eq_of_compare {a b} h := by
    obtain ⟨a⟩ := a
    obtain ⟨b⟩ := b
    cases Std.LawfulEqOrd.eq_of_compare (α := Nat) h
    rfl

end ClusterId

/-- One view of a relation: the non-empty rows. -/
abbrev Rows (α β : Type) [Ord α] [Ord β] := ExtTreeMap α (ExtTreeSet β)

namespace Rows

variable {α β : Type} [Ord α] [Std.TransOrd α] [Ord β] [Std.TransOrd β]

def row (rows : Rows α β) (a : α) : ExtTreeSet β := rows.getD a ∅

def add (rows : Rows α β) (a : α) (b : β) : Rows α β := rows.insert a ((row rows a).insert b)

/-- Deletes a pair, and the row with its last pair. -/
def delete (rows : Rows α β) (a : α) (b : β) : Rows α β :=
  let rest := (row rows a).erase b
  if rest.isEmpty then rows.erase a else rows.insert a rest

end Rows

/-- The links, seen from the clusters and from the ids. -/
structure LinkGraph where
  forward : Rows ClusterId ItemId
  reverse : Rows ItemId ClusterId

namespace LinkGraph

def empty : LinkGraph := ⟨∅, ∅⟩

def contains (g : LinkGraph) (source : ClusterId) (target : ItemId) : Bool :=
  (Rows.row g.forward source).contains target

def targets (g : LinkGraph) (source : ClusterId) : List ItemId :=
  (Rows.row g.forward source).toList

def count (g : LinkGraph) (source : ClusterId) : Nat := (Rows.row g.forward source).size

/-- Adds a link; the answer tells whether it is new. -/
def link (g : LinkGraph) (source : ClusterId) (target : ItemId) : LinkGraph × Bool :=
  if g.contains source target then (g, false)
  else (⟨Rows.add g.forward source target, Rows.add g.reverse target source⟩, true)

/-- Deletes a link; the answer tells whether it was there. -/
def unlink (g : LinkGraph) (source : ClusterId) (target : ItemId) : LinkGraph × Bool :=
  if g.contains source target then
    (⟨Rows.delete g.forward source target, Rows.delete g.reverse target source⟩, true)
  else (g, false)

def detach (g : LinkGraph) (target : ItemId) : LinkGraph :=
  { forward := (Rows.row g.reverse target).toList.foldl
      (fun rows source => Rows.delete rows source target) g.forward
    reverse := g.reverse.erase target }

/-- Deletes every link of a cluster, and tells where they led. -/
def removeCluster (g : LinkGraph) (source : ClusterId) : LinkGraph × List ItemId :=
  ({ forward := g.forward.erase source
     reverse := (g.targets source).foldl (fun rows target => Rows.delete rows target source)
      g.reverse },
    g.targets source)

def absorb (g : LinkGraph) (into other : ClusterId) : LinkGraph :=
  let (rest, targets) := g.removeCluster other
  targets.foldl (fun g target => (g.link into target).1) rest

def isConsistent (g : LinkGraph) : Bool :=
  (g.forward.all fun source targets => targets.toList.all fun target =>
    (Rows.row g.reverse target).contains source) &&
  (g.reverse.all fun target sources => sources.toList.all fun source => g.contains source target)

end LinkGraph

end DensityClustering
