import DensityClustering.Geometry.Overlay.Arrangement

/-!
Where the sites of an arrangement end up when their coordinates are rounded. They are placed in
lexicographic order: a corner stays where it is, and a crossing is computed from what the points
placed before have left of its two edges, so that it comes after them.
-/

namespace DensityClustering.Overlay

variable {S : Type} [Scalar S]

/-- What a site is: a corner of a polygon, or a point where two edges cross. -/
inductive Origin (S : Type) where
  | corner (c : Coord S)
  | crossing (p q : Segment S)

def corners (edges : List (Segment S)) : List (Site × Origin S) :=
  edges.flatMap fun e => [e.start, e.finish].map fun c => (siteOf c, .corner c)

/-- The sites at the crossings of edges, which come with their exact counterparts. -/
def crossings : List (Segment S × Segment Rat) → List (Site × Origin S)
  | [] => []
  | (p, p') :: rest =>
    (rest.filter fun (_, q') => crosses p' q').map (fun (q, q') => (p'.meeting q', .crossing p q)) ++
      crossings rest

abbrev Places (S : Type) := List (Site × Coord S)

def restOf (places : Places S) (e : Segment S) : Segment S :=
  match places.find? fun (site, _) => (exact e).contains site with
  | some (_, c) => ⟨c, e.finish⟩
  | none => e

/-- The point `c`, or the next one along `s` where `c` is the start of `s`. -/
def behindStart (s : Segment S) (c : Coord S) : Coord S :=
  if precedes (siteOf s.start) (siteOf c) then c
  else if s.start.x == s.finish.x then ⟨c.x, Scalar.next c.y⟩
  else ⟨Scalar.next c.x, c.y⟩

/-- The point where `later`, which begins behind the start of `earlier`, meets it. Where the two do
not cross any longer, or would change sides, `later` meets `earlier` at once. -/
def meetingBehind (earlier later : Segment S) : Coord S :=
  let c := behindStart later (earlier.meeting later)
  let side := turn earlier.start c later.start
  let keepsSide := side == .straight || side == turn earlier.start earlier.finish later.start
  if crosses (exact earlier) (exact later) && keepsSide then c else later.start

def Origin.point (places : Places S) : Origin S → Coord S
  | corner c => c
  | crossing p q =>
    let p := restOf places p
    let q := restOf places q
    if precedes (siteOf p.start) (siteOf q.start) then meetingBehind p q else meetingBehind q p

/-- Places a site unless that was done just before. -/
def placeNext (places : Places S) (next : Site × Origin S) : Places S :=
  if places.head?.any fun last => decide (last.1 = next.1) then places
  else (next.1, next.2.point places) :: places

/-- The points for all sites of the arrangement of the edges. -/
def places (edges : List (Segment S)) : Places S :=
  let all := corners edges ++ crossings (edges.map fun e => (e, exact e))
  (all.mergeSort fun a b => (Coord.order a.1 b.1).isLE).foldl placeNext []

def placeOf (places : Places S) (site : Site) : Coord S :=
  (places.lookup site).getD ⟨Scalar.nearest site.x, Scalar.nearest site.y⟩

end DensityClustering.Overlay
