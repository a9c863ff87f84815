import CubeLang.Geometry.Face

/-!
# Parts of a cube

A cube has corner parts with three stickers, edge parts with two and side parts with one. Each
location of a part has a fixed position in space. Coordinates are doubled and the cube is centred,
so that the centre of every part of a cube with `n` layers has coordinates between `-(n-1)` and
`n-1`. Edge parts are numbered in rounds of twelve, one per edge of the cube, from the middle of
the edges outward; side parts in rounds of six, one per face, from the middle of the faces outward,
ring by ring and within a ring in orbits of four that follow each other clockwise.
-/

set_option autoImplicit false

namespace CubeLang

/-- The kinds of parts: with one, two or three stickers. -/
inductive PartKind where
  | side | edge | corner
deriving DecidableEq

namespace PartKind

/-- The three kinds. -/
def all : List PartKind := [side, edge, corner]

/-- The name of a kind. -/
def name : PartKind → String
  | side => "side"
  | edge => "edge"
  | corner => "corner"

/-- The kind of a name. -/
def ofName? (text : String) : Option PartKind :=
  all.find? fun k => k.name = text

/-- The number of ways in which a part can stand in its place. -/
def modulus : PartKind → Nat
  | side => 4
  | edge => 2
  | corner => 3

/-- The number of parts of a kind in a cube with `n` layers. -/
def count (n : Nat) : PartKind → Nat
  | corner => 8
  | edge => 12 * (n - 2)
  | side => 6 * ((n - 2) * (n - 2))

end PartKind

/-- The faces of the corners, clockwise; the first is the one from which a twist is counted. -/
def cornerFaces : List (List Face) := [
  [.u, .r, .f], [.d, .f, .r], [.u, .b, .r], [.d, .r, .b],
  [.u, .l, .b], [.d, .b, .l], [.u, .f, .l], [.d, .l, .f]]

/-- The faces of the edges; the first is the one from which a flip is counted. -/
def edgeFaces : List (List Face) := [
  [.u, .r], [.r, .f], [.d, .r], [.b, .u], [.r, .b], [.b, .d],
  [.u, .l], [.l, .b], [.d, .l], [.f, .u], [.l, .f], [.f, .d]]

/-- The distance from the middle of the edge, along its axis, of the edge parts of a round. -/
def wingOffset (n round : Nat) : Int :=
  if (n + round) % 2 = 0 then -(round + 1 : Int) else round

/-- The distances from the middle of the face of its rings, from the inmost one out; a single
piece in the middle is no ring. -/
def rings (n : Nat) : List Int :=
  (List.range ((n - 2) / 2)).map fun k : Nat => 2 * (k : Int) + (if n % 2 = 0 then 1 else 2)

/-- The four places of an orbit, clockwise from the place `(right, down)` of its first piece. -/
def orbit (right down : Int) : List (Int × Int) :=
  [(right, down), (-down, right), (-right, -down), (down, -right)]

/-- The orbits of a ring: the corner of the ring first, then the middle if there is one, then the
places on the lines through the inner rings. -/
def ringOffsets (n : Nat) (inner : List Int) (ring : Int) : List (Int × Int) :=
  let minors := (if n % 2 = 0 then [] else [0]) ++ inner.flatMap fun r => [r, -r]
  orbit ring ring ++ minors.flatMap fun minor => orbit ring minor

/-- The places of the pieces of a face, to the right and down from its middle. -/
def sideOffsets (n : Nat) : List (Int × Int) :=
  (if n % 2 = 0 then [] else [(0, 0)])
    ++ (List.range ((n - 2) / 2)).flatMap fun k =>
      ringOffsets n ((rings n).take k) ((rings n).getD k 0)

/-- The position of the part between some faces of a cube with `n` layers. -/
def facesPosition (n : Nat) (faces : List Face) : Vec :=
  faces.foldl (fun v face => v.add (face.normal.scale (n - 1))) ⟨0, 0, 0⟩

/-- The axis along an edge: the one that is across neither of its faces. -/
def edgeAxis (faces : List Face) : Axis :=
  (Axis.all.find? fun a => faces.all fun face => face.axis ≠ a).getD .x

/-- The positions of the corners. -/
def cornerPositions (n : Nat) : List Vec :=
  cornerFaces.map (facesPosition n)

/-- The positions of the edge parts. -/
def edgePositions (n : Nat) : List Vec :=
  (List.range (n - 2)).flatMap fun round =>
    edgeFaces.map fun faces =>
      (facesPosition n faces).add ((edgeAxis faces).unit.scale (wingOffset n round))

/-- The position of a piece of a face. -/
def sidePosition (n : Nat) (face : Face) (place : Int × Int) : Vec :=
  (face.normal.scale (n - 1)).add
    ((face.reference.scale place.1).add ((face.clockwise face.reference).scale place.2))

/-- The positions of the side parts. -/
def sidePositions (n : Nat) : List Vec :=
  (sideOffsets n).flatMap fun place => Face.all.map fun face => sidePosition n face place

/-- The positions of the locations of a kind, in order. -/
def positions (n : Nat) : PartKind → List Vec
  | .corner => cornerPositions n
  | .edge => edgePositions n
  | .side => sidePositions n

end CubeLang
