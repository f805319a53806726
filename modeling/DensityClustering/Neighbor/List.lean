import DensityClustering.Neighbor.ItemId

/-!
Neighbour lists: what a list can be asked to do, and the plain list that keeps every neighbour.
Lists of one kind may share state, which only a new list and an offered neighbour can change.
-/

namespace DensityClustering

/-- The distance of two values, and what was learned on the way. -/
structure DistanceProfile (C : Type) where
  distance : Float
  context : C

/-- What a list says about a candidate before its distance is known. -/
inductive Inference where
  | none
  /-- Leave the candidate out. -/
  | skip
  /-- Leave the candidate out of the whole traversal. -/
  | remove
  deriving DecidableEq, Repr

/-- A kind of neighbour list: lists `L` of values `V` with contexts `C`, over shared state `σ`. -/
structure ListKind (σ V C L : Type) where
  build : ItemId → V → σ → L × σ
  /-- Offers a neighbour within range; the answer tells whether it was accepted. -/
  add : L → DistanceProfile C → ItemId → V → σ → Bool × L × σ
  infer : L → ItemId → V → σ → Inference

structure PlainList (V : Type) where
  entries : List (ItemId × V)

namespace PlainList

variable {V : Type}

def size (l : PlainList V) : Nat := l.entries.length

def empty : PlainList V := ⟨[]⟩

/-- Plain lists accept every neighbour and classify none. -/
def kind (C : Type) : ListKind Unit V C (PlainList V) where
  build _ _ shared := (empty, shared)
  add l _ id value shared := (true, ⟨l.entries ++ [(id, value)]⟩, shared)
  infer _ _ _ _ := .none

end PlainList

end DensityClustering
