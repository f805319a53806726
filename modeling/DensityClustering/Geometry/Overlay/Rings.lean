import DensityClustering.Geometry.Overlay.Rounding

/-!
Rings out of directed boundary segments: walks that keep the interior to the left, split wherever
they come back to a site, and the polygons that such rings form.
-/

namespace DensityClustering.Overlay

/-- Of two ways on from `here`, having come from `before`, the first is met earlier when turning
clockwise from the way back. -/
def turnsFirst (before here : Site) (a b : Site) : Bool :=
  let rank : Site → Nat := fun c => match turn here before c with
    | .clockwise => 0
    | .straight => 1
    | .counterClockwise => 2
  rank a < rank b || (rank a == rank b && turn here a b == .clockwise)

/-- The way on from `here` that keeps the interior together. -/
def wayOn (before here : Site) (rest : List (Segment Rat)) : Option (Segment Rat) :=
  (rest.filter fun e => decide (e.start = here)).foldl
    (fun best e => match best with
      | none => some e
      | some b => if turnsFirst before here e.finish b.finish then some e else some b)
    none

/-- Rings from the segments `rest`, given the sites passed so far, last one first. A site that
comes up again closes a ring; a walk that cannot go on is given up. -/
def walk (rest : List (Segment Rat)) (passed : List Site) : List (List Site) :=
  match passed with
  | [] =>
    match rest with
    | [] => []
    | e :: rest => walk rest [e.finish, e.start]
  | here :: older =>
    if here ∈ older then
      let isOther := fun s : Site => decide (s ≠ here)
      let back := older.dropWhile isOther
      (here :: older.takeWhile isOther).reverse ::
        walk rest (if back.length ≤ 1 then [] else back)
    else
      match older.head?.bind fun before => wayOn before here rest with
      | none => walk rest []
      | some e => if e ∈ rest then walk (rest.erase e) (e.finish :: here :: older) else walk rest []
termination_by 3 * rest.length + passed.length
decreasing_by
  · simp only [List.length_cons, List.length_nil]; omega
  · have h := (List.dropWhile_sublist (l := older) isOther).length_le
    simp only [List.length_cons]
    split
    · simp only [List.length_nil]; omega
    · simp only [isOther] at h ⊢; omega
  · simp only [List.length_cons, List.length_nil]; omega
  · have h : e ∈ rest := by assumption
    have := List.length_erase_of_mem h
    have := List.length_pos_of_mem h
    simp only [List.length_cons]; omega
  · simp only [List.length_cons, List.length_nil]; omega

def doubledArea (ring : List Site) : Rat :=
  (Segment.chain (ring ++ ring.take 1)).foldl
    (fun sum e => sum + (e.start.x * e.finish.y - e.start.y * e.finish.x)) (Rat.ofInt 0)

structure Loop where
  ring : List Site
  doubledArea : Rat

/-- The ring goes round `c`, which does not lie on it. -/
def Loop.surrounds (l : Loop) (c : Site) : Bool :=
  ((Segment.chain (l.ring ++ l.ring.take 1)).map upward).countP (passesBelow c) % 2 == 1

/-- The number of the smallest outer ring around a hole. -/
def parent (outers : List Loop) (hole : Loop) : Option Nat :=
  match Segment.chain hole.ring with
  | [] => none
  | e :: _ =>
    let around := outers.zipIdx.filter fun (o, _) => o.surrounds (middle e)
    (around.foldl (fun best o => match best with
      | none => some o
      | some b => if o.1.doubledArea < b.1.doubledArea then some o else some b) none).map (·.2)

def withoutRepeats {S : Type} [Scalar S] : List (Coord S) → List (Coord S)
  | a :: b :: rest =>
    if a.coincides b then withoutRepeats (b :: rest) else a :: withoutRepeats (b :: rest)
  | cs => cs

/-- The ring with its sites placed; neighbours that fall together count once. -/
def Loop.placed {S : Type} [Scalar S] (places : Places S) (l : Loop) : Ring S :=
  ⟨withoutRepeats (l.ring.map (placeOf places))⟩

/-- The polygons with the given boundary; a ring with its interior to the left is an outer one.
Rings that bound nothing any longer once their sites are placed are left out. -/
def polygons {S : Type} [Scalar S] (places : Places S) (boundary : List (Segment Rat)) :
    List (Polygon S) :=
  let loops := (walk boundary []).map fun ring => (⟨ring, doubledArea ring⟩ : Loop)
  let outers := loops.filter fun l => decide (Rat.ofInt 0 < l.doubledArea)
  let holes := loops.filter fun l => decide (l.doubledArea < Rat.ofInt 0)
  let parents := holes.map (parent outers)
  let holesOf := fun i => ((holes.zip parents).filter fun (_, p) => p == some i).map
    fun (h, _) => h.placed places
  (outers.zipIdx.map fun (o, i) => (⟨o.placed places, (holesOf i).filter bounds⟩ : Polygon S)).filter
    fun p => bounds p.exterior

end DensityClustering.Overlay
