import CubeLang.Geometry.Vector
import CubeLang.Symbol

/-!
# Faces

The six faces of a cube, with their outward normals. On each face one direction is the reference
from which the twist of the face's own pieces is measured.
-/

set_option autoImplicit false

namespace CubeLang

/-- The faces right, up, front, left, down and back, in the order in which parts number them. -/
inductive Face where
  | r | u | f | l | d | b
deriving DecidableEq

namespace Face

/-- The six faces in order. -/
def all : List Face := [r, u, f, l, d, b]

/-- The place of a face among the six. -/
def index : Face → Nat
  | r => 0
  | u => 1
  | f => 2
  | l => 3
  | d => 4
  | b => 5

/-- The face of a number, counted round and round. -/
def ofIndex (i : Nat) : Face :=
  match i % 6 with
  | 0 => r
  | 1 => u
  | 2 => f
  | 3 => l
  | 4 => d
  | _ => b

/-- The letter of a face inside a message. -/
def letter : Face → String
  | r => "r"
  | u => "u"
  | f => "f"
  | l => "l"
  | d => "d"
  | b => "b"

/-- The symbol of a face. -/
def symbol : Face → Symbol
  | r => .faceR
  | u => .faceU
  | f => .faceF
  | l => .faceL
  | d => .faceD
  | b => .faceB

/-- The face of a symbol. -/
def ofSymbol? : Symbol → Option Face
  | .faceR => some r
  | .faceU => some u
  | .faceF => some f
  | .faceL => some l
  | .faceD => some d
  | .faceB => some b
  | _ => none

/-- The axis that a face stands across. -/
def axis : Face → Axis
  | r | l => .x
  | u | d => .y
  | f | b => .z

/-- The outward normal. -/
def normal : Face → Vec
  | r => ⟨1, 0, 0⟩
  | u => ⟨0, 1, 0⟩
  | f => ⟨0, 0, 1⟩
  | l => ⟨-1, 0, 0⟩
  | d => ⟨0, -1, 0⟩
  | b => ⟨0, 0, -1⟩

/-- The reference direction; seen from outside it points to the right. -/
def reference : Face → Vec
  | r => ⟨0, 0, -1⟩
  | u => ⟨-1, 0, 0⟩
  | f => ⟨0, -1, 0⟩
  | l => ⟨0, 1, 0⟩
  | d => ⟨0, 0, 1⟩
  | b => ⟨1, 0, 0⟩

/-- A vector after a clockwise quarter turn of the face, seen from outside. -/
def clockwise (face : Face) (v : Vec) : Vec := v.cross face.normal

/-- A vector after an anticlockwise quarter turn of the face, seen from outside. -/
def anticlockwise (face : Face) (v : Vec) : Vec := face.normal.cross v

/-- The face with a given normal. -/
def ofNormal? (v : Vec) : Option Face := all.find? fun face => face.normal = v

/-- The anticlockwise quarter turns that carry one direction in the plane of a face to another:
at most three; four stand for a direction that is not in the plane. -/
def turns (face : Face) (source target : Vec) : Nat :=
  if source = target then 0
  else if face.anticlockwise source = target then 1
  else if face.anticlockwise (face.anticlockwise source) = target then 2
  else if face.anticlockwise (face.anticlockwise (face.anticlockwise source)) = target then 3
  else 4

end Face

end CubeLang
