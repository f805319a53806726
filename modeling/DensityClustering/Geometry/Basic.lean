import DensityClustering.Scalar.Basic

/-!
Planar shapes. A shape keeps the corners it was made from; what its kind adds to them — the closing
point of a ring, the order of a box's corners, the sense of a triangle — is computed from those, so
that every value of the types below is a shape.
-/

namespace DensityClustering

structure Coord (S : Type) where
  x : S
  y : S
  deriving DecidableEq, Repr

namespace Coord

variable {S : Type} [Scalar S]

/-- The two points have equal coordinates, zeros of both signs counting as equal. -/
def coincides (a b : Coord S) : Bool := a.x == b.x && a.y == b.y

instance : Sub (Coord S) := ⟨fun a b => ⟨a.x - b.x, a.y - b.y⟩⟩

instance : Add (Coord S) := ⟨fun a b => ⟨a.x + b.x, a.y + b.y⟩⟩

def scale (v : Coord S) (t : S) : Coord S := ⟨v.x * t, v.y * t⟩

def isFinite (c : Coord S) : Bool := Scalar.isFinite c.x && Scalar.isFinite c.y

/-- The two points differ by at most the tolerance in each coordinate. -/
def near (a b : Coord S) : Bool :=
  Scalar.abs (a.x - b.x) ≤ Scalar.tolerance && Scalar.abs (a.y - b.y) ≤ Scalar.tolerance

def orderX (a b : Coord S) : Ordering := Scalar.order a.x b.x

def orderY (a b : Coord S) : Ordering := Scalar.order a.y b.y

instance : Std.TransCmp (orderX : Coord S → Coord S → Ordering) where
  eq_swap := (Scalar.transOrder (S := S)).eq_swap
  isLE_trans := (Scalar.transOrder (S := S)).isLE_trans

instance : Std.TransCmp (orderY : Coord S → Coord S → Ordering) where
  eq_swap := (Scalar.transOrder (S := S)).eq_swap
  isLE_trans := (Scalar.transOrder (S := S)).isLE_trans

def order (a b : Coord S) : Ordering := compareLex orderX orderY a b

instance : Std.TransCmp (order : Coord S → Coord S → Ordering) :=
  inferInstanceAs (Std.TransCmp (compareLex orderX orderY))

instance : Std.LawfulEqCmp (order : Coord S → Coord S → Ordering) where
  eq_of_compare {a b} h := by
    have h : (Scalar.order a.x b.x).then (Scalar.order a.y b.y) = .eq := h
    rw [Ordering.then_eq_eq] at h
    obtain ⟨ax, ay⟩ := a
    obtain ⟨bx, bY⟩ := b
    cases (Scalar.lawfulOrder (S := S)).eq_of_compare h.1
    cases (Scalar.lawfulOrder (S := S)).eq_of_compare h.2
    rfl
  compare_self := (inferInstance : Std.ReflCmp (order (S := S))).compare_self

/-- A negative zero becomes a positive one; every other coordinate stays. -/
def unsigned (c : Coord S) : Coord S := ⟨c.x + 0, c.y + 0⟩

end Coord

/-- A ring, by the vertices it was made from; the first may be repeated at the end. -/
structure Ring (S : Type) where
  vertices : List (Coord S)
  deriving DecidableEq, Repr

/-- The vertices in order, with the first one again at the end unless it is there already. -/
def Ring.closed {S : Type} [Scalar S] (r : Ring S) : List (Coord S) :=
  match r.vertices.head?, r.vertices.getLast? with
  | some first, some last => if first.coincides last then r.vertices else r.vertices ++ [first]
  | _, _ => r.vertices

structure Polygon (S : Type) where
  exterior : Ring S
  holes : List (Ring S)
  deriving DecidableEq, Repr

def Polygon.rings {S : Type} (p : Polygon S) : List (Ring S) := p.exterior :: p.holes

/-- A box with sides along the axes, by two opposite corners. -/
structure Box (S : Type) where
  corner : Coord S
  opposite : Coord S
  deriving DecidableEq, Repr

namespace Box

variable {S : Type} [Scalar S]

def lower (b : Box S) : Coord S :=
  ⟨if b.corner.x < b.opposite.x then b.corner.x else b.opposite.x,
    if b.corner.y < b.opposite.y then b.corner.y else b.opposite.y⟩

def upper (b : Box S) : Coord S :=
  ⟨if b.corner.x < b.opposite.x then b.opposite.x else b.corner.x,
    if b.corner.y < b.opposite.y then b.opposite.y else b.corner.y⟩

/-- The four corners, upwards from the lower one. -/
def corners (b : Box S) : List (Coord S) :=
  [b.lower, ⟨b.lower.x, b.upper.y⟩, b.upper, ⟨b.upper.x, b.lower.y⟩]

/-- The box as a polygon, counter-clockwise from its lower right corner. -/
def toPolygon (b : Box S) : Polygon S :=
  ⟨⟨[⟨b.upper.x, b.lower.y⟩, b.upper, ⟨b.lower.x, b.upper.y⟩, b.lower]⟩, []⟩

end Box

/-- A triangle, by its corners in any order. -/
structure Triangle (S : Type) where
  a : Coord S
  b : Coord S
  c : Coord S
  deriving DecidableEq, Repr

namespace Triangle

variable {S : Type} [Scalar S]

/-- The corners, reversed where they run clockwise. -/
def corners (t : Triangle S) : List (Coord S) :=
  let ab := t.b - t.a
  let bc := t.c - t.b
  if ab.x * bc.y - ab.y * bc.x < 0 then [t.c, t.b, t.a] else [t.a, t.b, t.c]

def toPolygon (t : Triangle S) : Polygon S := ⟨⟨t.corners⟩, []⟩

end Triangle

/-- A shape of any dimension, or a collection of shapes. -/
inductive Geometry (S : Type) where
  | point (p : Coord S)
  | multiPoint (ps : List (Coord S))
  | line (start finish : Coord S)
  | lineString (ps : List (Coord S))
  | multiLineString (ls : List (List (Coord S)))
  | polygon (p : Polygon S)
  | multiPolygon (ps : List (Polygon S))
  | box (b : Box S)
  | triangle (t : Triangle S)
  | collection (gs : List (Geometry S))
  deriving Repr

namespace Polygon

variable {S : Type} [Scalar S]

/-- The vertices of all rings, closing points included. -/
def coords (p : Polygon S) : List (Coord S) := p.rings.flatMap Ring.closed

end Polygon

namespace Geometry

variable {S : Type} [Scalar S]

mutual

def coords : Geometry S → List (Coord S)
  | point p => [p]
  | multiPoint ps => ps
  | line a b => [a, b]
  | lineString ps => ps
  | multiLineString ls => ls.flatten
  | polygon p => p.coords
  | multiPolygon ps => ps.flatMap Polygon.coords
  | box b => b.corners
  | triangle t => t.corners
  | collection gs => coordsOfAll gs

def coordsOfAll : List (Geometry S) → List (Coord S)
  | [] => []
  | g :: gs => coords g ++ coordsOfAll gs

end

def empty : Geometry S := multiPolygon []

def isEmpty (g : Geometry S) : Bool := g.coords.isEmpty

/-- A single point, as opposed to a set of points with one member. -/
def isPoint : Geometry S → Bool
  | point _ => true
  | _ => false

def isFinite (g : Geometry S) : Bool := g.coords.all Coord.isFinite

end Geometry

end DensityClustering
