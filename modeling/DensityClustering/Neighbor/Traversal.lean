import Std.Data.ExtTreeSet
import DensityClustering.Neighbor.Error
import DensityClustering.Neighbor.Index
import DensityClustering.Neighbor.PartitionIndex

/-!
The traversal of a partition group. Every primary is visited once: its neighbours are the stored ids
that share a cell with it, and the walk goes on at the farthest of them that was not visited yet, or
else at the smallest id left.
-/

namespace DensityClustering

open Std (ExtTreeSet)

/-- What a partitioner did with a value: the cells it named, and its error if it then failed. -/
structure Placement where
  cells : List Descriptor
  failure : Option String

/-- How raw values are converted into stored ones and placed. -/
structure Intake (P V : Type) where
  convert : ItemId → P → Except String V
  place : P → Placement

/-- A partition group: its points, the primary stored first, the range within which neighbours are
accepted, and the partition that the group stands for. -/
structure Group (V : Type) where
  index : PartitionIndex V
  first : Option ItemId
  maxDistance : Float
  parent : Descriptor

/-- Whom a traversal asks: lists of a kind, a distance function, and a receiver of completed
centers. All may use and change the shared state. -/
structure Collaborators (σ V C L : Type) where
  lists : ListKind σ V C L
  measure : V → V → σ → Except String (DistanceProfile C) × σ
  complete : ItemId → V → L → σ → Except String Unit × σ

/-- Where a traversal stands: the lists, and the primaries still to be visited. -/
structure Walk (σ L : Type) where
  lists : NeighborIndex σ L
  pending : ExtTreeSet ItemId

def Walk.smallest {σ L : Type} (w : Walk σ L) : Option ItemId := w.pending.toList.head?

/-- A walk during a visit: the largest distance so far, and the pending primary it leads to. -/
structure Scan (σ L : Type) where
  walk : Walk σ L
  distance : Float
  farthest : Option ItemId

/-- What a traversal leaves: the shared state, the journal from the first event on, and the error
that stopped it. -/
structure Outcome (σ L : Type) where
  shared : σ
  journal : List (Event L)
  failure : Option NeighborError

namespace Group

variable {P V σ C L : Type}

def empty (maxDistance : Float) (parent : Descriptor) : Group V :=
  ⟨.empty, none, maxDistance, parent⟩

/-- Stores a point; nothing is stored when it cannot be converted or placed. -/
def add (intake : Intake P V) (g : Group V) (id : ItemId) (primary : Bool) (raw : P) :
    Except NeighborError (Group V) :=
  match intake.convert id raw with
  | .error e => .error (.conversion id e)
  | .ok value =>
    match intake.place raw with
    | ⟨_, some e⟩ => .error (.placement id e)
    | ⟨cells, none⟩ =>
      .ok { g with
        index := g.index.insert id primary value cells
        first := if primary then g.first.or (some id) else g.first }

def tryAdd (intake : Intake P V) (g : Group V) (id : ItemId) (primary : Bool) (raw : P) : Group V :=
  match g.add intake id primary raw with
  | .ok g => g
  | .error _ => g

def remove (g : Group V) (id : ItemId) : Group V := { g with index := g.index.remove id }

/-- The ids that share a cell with a center, by cell and then by id, each once. -/
def neighbors (g : Group V) (center : ItemId) : List ItemId :=
  ((g.index.coMembers center).filter fun id => decide (id ≠ center)).eraseDups

/-- The value of a neighbour, and whether it is a primary. A primary that is no longer pending does
not count. -/
def candidate (g : Group V) (pending : ExtTreeSet ItemId) (id : ItemId) : Option (V × Bool) :=
  match g.index.primary id with
  | some value => if pending.contains id then some (value, true) else none
  | none => (g.index.other id).map fun value => (value, false)

/-- Deals with one neighbour of a center: asks the center's list about it, measures it, offers it to
the list when it is in range, and remembers the farthest one. -/
def consider (g : Group V) (c : Collaborators σ V C L) (center : ItemId) (centerValue : V)
    (neighbor : ItemId) (s : Scan σ L) : Scan σ L × Option String :=
  match g.candidate s.walk.pending neighbor with
  | none => (s, none)
  | some (value, isPrimary) =>
    match s.walk.lists.infer c.lists center neighbor value with
    | .skip => (s, none)
    | .remove => ({ s with walk.pending := s.walk.pending.erase neighbor }, none)
    | .none =>
      let (outcome, shared) := c.measure centerValue value s.walk.lists.shared
      let lists := { s.walk.lists with shared := shared }.note (.measured center neighbor)
      match outcome with
      | .error e => ({ s with walk.lists := lists }, some e)
      | .ok profile =>
        let lists :=
          if profile.distance ≤ g.maxDistance then
            (lists.add c.lists profile center centerValue neighbor value isPrimary).1
          else lists
        if s.distance < profile.distance && s.walk.pending.contains neighbor then
          (⟨{ s.walk with lists := lists }, profile.distance, some neighbor⟩, none)
        else ({ s with walk.lists := lists }, none)

/-- Deals with neighbours in order, up to the first failing distance. -/
def scan (g : Group V) (c : Collaborators σ V C L) (center : ItemId) (centerValue : V) :
    List ItemId → Scan σ L → Scan σ L × Option String
  | [], s => (s, none)
  | neighbor :: rest, s =>
    match g.consider c center centerValue neighbor s with
    | (s, some e) => (s, some e)
    | (s, none) => scan g c center centerValue rest s

/-- Hands a center over with its list, and empties the list. -/
def finish (c : Collaborators σ V C L) (center : ItemId) (value : V) (w : Walk σ L) :
    Walk σ L × Option String :=
  match w.lists.find center with
  | none => ({ w with lists := w.lists.empty center }, none)
  | some list =>
    let (outcome, shared) := c.complete center value list w.lists.shared
    let lists := { w.lists with shared := shared }.note (.completed center list)
    match outcome with
    | .error e => ({ w with lists := lists }, some e)
    | .ok () => ({ w with lists := lists.empty center }, none)

/-- Visits a pending id: its neighbours are dealt with, and its list is handed over. The answer is
the farthest pending primary met, or why the visit failed. -/
def visit (g : Group V) (c : Collaborators σ V C L) (w : Walk σ L) (center : ItemId) :
    Walk σ L × Except TraversalCause (Option ItemId) :=
  let w := { w with pending := w.pending.erase center }
  match g.index.primary center with
  | none => (w, .ok none)
  | some value =>
    match w.lists.init c.lists center value with
    | (lists, none) => ({ w with lists := lists }, .ok none)
    | (lists, some _) =>
      match g.scan c center value (g.neighbors center) ⟨{ w with lists := lists }, 0, none⟩ with
      | (s, some e) => (s.walk, .error (.distance e))
      | (s, none) =>
        match finish c center value s.walk with
        | (w, some e) => (w, .error (.completion e))
        | (w, none) => (w, .ok s.farthest)

theorem consider_pending_size (g : Group V) (c : Collaborators σ V C L) (center : ItemId)
    (value : V) (neighbor : ItemId) (s : Scan σ L) :
    (g.consider c center value neighbor s).1.walk.pending.size ≤ s.walk.pending.size := by
  unfold consider
  split
  · exact Nat.le_refl _
  · split
    · exact Nat.le_refl _
    · exact ExtTreeSet.size_erase_le
    · dsimp only
      split
      · exact Nat.le_refl _
      · split <;> exact Nat.le_refl _

theorem scan_pending_size (g : Group V) (c : Collaborators σ V C L) (center : ItemId)
    (value : V) (neighbors : List ItemId) (s : Scan σ L) :
    (g.scan c center value neighbors s).1.walk.pending.size ≤ s.walk.pending.size := by
  induction neighbors generalizing s with
  | nil => exact Nat.le_refl _
  | cons n rest ih =>
    have h := consider_pending_size g c center value n s
    unfold scan
    split
    · next heq => rw [heq] at h; exact h
    · next heq => rw [heq] at h; exact Nat.le_trans (ih _) h

theorem finish_pending (c : Collaborators σ V C L) (center : ItemId) (value : V) (w : Walk σ L) :
    (finish c center value w).1.pending = w.pending := by
  unfold finish
  split
  · rfl
  · dsimp only
    split <;> rfl

theorem visit_pending_size (g : Group V) (c : Collaborators σ V C L) (w : Walk σ L)
    (center : ItemId) :
    (g.visit c w center).1.pending.size ≤ (w.pending.erase center).size := by
  unfold visit
  dsimp only
  split
  · exact Nat.le_refl _
  · next value _ =>
    split
    · exact Nat.le_refl _
    · next lists _ _ =>
      have h := scan_pending_size g c center value (g.neighbors center)
        ⟨⟨lists, w.pending.erase center⟩, 0, none⟩
      split
      · next heq => rw [heq] at h; exact h
      · next s heq =>
        rw [heq] at h
        have hf := finish_pending c center value s.walk
        split
        · next heq' => rw [heq'] at hf; exact hf ▸ h
        · next heq' => rw [heq'] at hf; exact hf ▸ h

/-- Visits pending primaries, `next` first where there is one, until none is left or a visit
fails. -/
def roam (g : Group V) (c : Collaborators σ V C L) (w : Walk σ L) (next : Option ItemId) :
    Walk σ L × Option (ItemId × TraversalCause) :=
  match next.or w.smallest with
  | none => (w, none)
  | some center =>
    if _mem : center ∈ w.pending then
      match _visited : g.visit c w center with
      | (after, .error cause) => (after, some (center, cause))
      | (after, .ok farthest) => roam g c after farthest
    else (w, none)
termination_by w.pending.size
decreasing_by
  have hs : after.pending.size ≤ (w.pending.erase center).size := by
    simpa only [_visited] using visit_pending_size g c w center
  have he := ExtTreeSet.size_erase (t := w.pending) (k := center)
  rw [if_pos (ExtTreeSet.mem_iff_contains.mp _mem)] at he
  have h0 : w.pending.size ≠ 0 := fun h0 => by
    rw [ExtTreeSet.eq_empty_iff_size_eq_zero.mpr h0] at _mem
    exact ExtTreeSet.not_mem_empty _mem
  omega

/-- Traverses the group from its first primary, or from the smallest when that one is gone. -/
def traverse (g : Group V) (c : Collaborators σ V C L) (shared : σ) : Outcome σ L :=
  let pending := ExtTreeSet.ofList g.index.primaryIds
  let first := g.first.filter fun id => pending.contains id
  let (w, failure) := g.roam c ⟨.start shared, pending⟩ first
  { shared := w.lists.shared
    journal := w.lists.journal.reverse
    failure := failure.map fun (id, cause) => .traversal g.parent.key id cause }

end Group

end DensityClustering
