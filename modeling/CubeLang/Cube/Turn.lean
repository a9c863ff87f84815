import CubeLang.Cube.Arrangement

/-!
# Turns of layers

A turn carries each part of a layer to the location whose position is the image of the part's own
position. The twist it adds is the one by which the part's first face, or a side part's reference
direction, misses that of the location it comes to. So each turn is an arrangement, computed from
positions alone; those of the supported cubes are computed once.
-/

set_option autoImplicit false

namespace CubeLang.Turn

/-- The faces of a corner or edge location; side locations have one face. -/
def locationFaces : PartKind → Nat → List Face
  | .corner, i => cornerFaces.getD i []
  | .edge, i => edgeFaces.getD (i % 12) []
  | .side, i => [Face.ofIndex i]

/-- The first face of a location. -/
def firstFace (kind : PartKind) (i : Nat) : Face :=
  (locationFaces kind i).headD .r

/-- The face that a rotation carries a face to. -/
def imageFace (m : Matrix) (face : Face) : Face :=
  (Face.ofNormal? (m.apply face.normal)).getD face

/-- The twist that a rotation gives to a part carried from one location to another. -/
def twistBetween (kind : PartKind) (m : Matrix) (source target : Nat) : Nat :=
  match kind with
  | .corner =>
    (3 - (locationFaces .corner target).idxOf (imageFace m (firstFace .corner source))) % 3
  | .edge => (locationFaces .edge target).idxOf (imageFace m (firstFace .edge source))
  | .side =>
    let there := Face.ofIndex target
    there.turns there.reference (m.apply (Face.ofIndex source).reference)

/-- The location at a position. -/
def locationAt (n : Nat) (kind : PartKind) (v : Vec) : Nat :=
  (positions n kind).idxOf v

/-- The layer of a position along an axis. -/
def layerOf (n : Nat) (axis : Axis) (v : Vec) : Nat :=
  ((axis.component v + (n - 1)) / 2).toNat

/-- What a turn of all layers does at a location, and the layer of the location. -/
structure Entry where
  source : Nat
  twist : Nat
  layer : Nat
deriving DecidableEq, Inhabited

/-- What a turn of all layers does at the location `target` with the position `v`. -/
def entry (n : Nat) (kind : PartKind) (axis : Axis) (angle : Int) (target : Nat) (v : Vec) :
    Entry :=
  let source := locationAt n kind ((Matrix.rotation axis (-angle)).apply v)
  ⟨source, twistBetween kind (Matrix.rotation axis angle) source target, layerOf n axis v⟩

/-- What a turn of all layers does at each location. -/
def table (n : Nat) (kind : PartKind) (axis : Axis) (angle : Int) : Array Entry :=
  ((positions n kind).mapIdx (entry n kind axis angle)).toArray

/-- The number of a turn of a supported cube among the tables kept. -/
def tableIndex (n : Nat) (kind : PartKind) (axis : Axis) (angle : Int) : Nat :=
  let k := match kind with
    | .side => 0
    | .edge => 1
    | .corner => 2
  (((n - 2) * 3 + k) * 3 + axis.index) * 4 + (angle % 4).toNat

/-- The tables of the cubes with two to seven layers, in the order of their numbers. -/
def tables : Array (Array Entry) :=
  ((List.range 6).flatMap fun n =>
    PartKind.all.flatMap fun kind =>
      Axis.all.flatMap fun axis =>
        (List.range 4).map fun angle : Nat => table (n + 2) kind axis angle).toArray

/-- The table of a turn, taken from those kept if it is there. -/
def tableOf (n : Nat) (kind : PartKind) (axis : Axis) (angle : Int) : Array Entry :=
  if n < 2 then table n kind axis angle
  else match tables[tableIndex n kind axis angle]? with
    | some t => t
    | none => table n kind axis angle

/-- The arrangement that a turn of the layers in `mask` makes. -/
def arrangement (n : Nat) (kind : PartKind) (axis : Axis) (mask : Nat) (angle : Int) :
    Arrangement :=
  (tableOf n kind axis angle).mapIdx fun i e =>
    if mask.testBit e.layer then ⟨e.source, e.twist⟩ else ⟨i, 0⟩

end CubeLang.Turn
