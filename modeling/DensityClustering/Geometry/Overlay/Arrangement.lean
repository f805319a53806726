import DensityClustering.Scalar.Instances
import DensityClustering.Geometry.Meeting

/-!
The arrangement of the edges of two sets of polygons, in exact arithmetic: the edges are cut where
they meet, and each piece knows on which of its sides each set lies. A point belongs to a set when
the rings of the set go round it an odd number of times.
-/

namespace DensityClustering.Overlay

abbrev Site := Coord Rat

def precedes (a b : Site) : Bool := Coord.order a b == .lt

section

variable {S : Type} [Scalar S]

def siteOf (c : Coord S) : Site := ⟨Scalar.value c.x, Scalar.value c.y⟩

def exact (s : Segment S) : Segment Rat := ⟨siteOf s.start, siteOf s.finish⟩

def upward (s : Segment S) : Segment S :=
  if precedes (siteOf s.finish) (siteOf s.start) then ⟨s.finish, s.start⟩ else s

/-- The ring bounds an area: rings of at most three points, the closing one included, do not. -/
def bounds (r : Ring S) : Bool := decide (3 < r.closed.length)

def edges (ps : List (Polygon S)) : List (Segment S) :=
  let rings := (ps.flatMap Polygon.rings).filter bounds
  let all := rings.flatMap fun r => Segment.chain r.closed
  (all.filter fun e => decide (siteOf e.start ≠ siteOf e.finish)).map upward

end

/-- The ends of the segment lie strictly on different sides of the line through `a` and `b`. -/
def straddles (a b : Site) (s : Segment Rat) : Bool :=
  match turn a b s.start, turn a b s.finish with
  | .clockwise, .counterClockwise => true
  | .counterClockwise, .clockwise => true
  | _, _ => false

/-- One upward segment ends before the other begins. -/
def areApart (p q : Segment Rat) : Bool := q.finish.x < p.start.x || p.finish.x < q.start.x

/-- Two upward segments have a single point in common, which is no end of either. -/
def crosses (p q : Segment Rat) : Bool :=
  !areApart p q && straddles p.start p.finish q && straddles q.start q.finish p

/-- The points at which `q` cuts `p`, both upward. -/
def cuts (p q : Segment Rat) : List Site :=
  if areApart p q then []
  else if crosses p q then [p.meeting q]
  else [q.start, q.finish].filter p.contains

def inOrder (sites : List Site) : List Site :=
  (sites.mergeSort fun a b => (Coord.order a b).isLE).eraseDups

def cutUp (others : List (Segment Rat)) (p : Segment Rat) : List (Segment Rat) :=
  Segment.chain (inOrder (p.start :: p.finish :: others.flatMap (cuts p)))

def passesBelow (c : Site) (e : Segment Rat) : Bool :=
  e.start.x ≤ c.x && c.x < e.finish.x && turn e.start e.finish c == .counterClockwise

def middle (s : Segment Rat) : Site :=
  ⟨(s.start.x + s.finish.x) / 2, (s.start.y + s.finish.y) / 2⟩

/-- Whether a set of polygons lies to the right and to the left of a piece. -/
def sides (edges : List (Segment Rat)) (piece : Segment Rat) : Bool × Bool :=
  let m := middle piece
  let right := edges.countP (passesBelow m)
  let on := edges.countP (·.contains m)
  (right % 2 == 1, (right + on) % 2 == 1)

/-- The boundary of the points that `keep` selects by membership in the two sets, directed so that
the selected points lie to the left. -/
def boundary (keep : Bool → Bool → Bool) (as bs : List (Segment Rat)) : List (Segment Rat) :=
  let pieces := ((as ++ bs).flatMap (cutUp (as ++ bs))).eraseDups
  pieces.filterMap fun piece =>
    let (rightA, leftA) := sides as piece
    let (rightB, leftB) := sides bs piece
    match keep rightA rightB, keep leftA leftB with
    | false, true => some piece
    | true, false => some ⟨piece.finish, piece.start⟩
    | _, _ => none

end DensityClustering.Overlay
