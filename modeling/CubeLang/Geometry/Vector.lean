/-!
# Vectors and rotations of space

Integer vectors of space, the three coordinate axes, and the rotations by quarter turns about
them. A turn is counted clockwise as seen from the positive end of its axis.
-/

set_option autoImplicit false

namespace CubeLang

/-- An integer vector. -/
structure Vec where
  x : Int
  y : Int
  z : Int
deriving DecidableEq

namespace Vec

/-- The sum of two vectors. -/
def add (a b : Vec) : Vec := ⟨a.x + b.x, a.y + b.y, a.z + b.z⟩

/-- A vector times a number. -/
def scale (k : Int) (a : Vec) : Vec := ⟨k * a.x, k * a.y, k * a.z⟩

/-- The inner product. -/
def dot (a b : Vec) : Int := a.x * b.x + a.y * b.y + a.z * b.z

/-- The cross product. -/
def cross (a b : Vec) : Vec :=
  ⟨a.y * b.z - a.z * b.y, a.z * b.x - a.x * b.z, a.x * b.y - a.y * b.x⟩

end Vec

/-- A coordinate axis. -/
inductive Axis where
  | x | y | z
deriving DecidableEq

namespace Axis

/-- The three axes in order. -/
def all : List Axis := [x, y, z]

/-- The place of an axis among the three. -/
def index : Axis → Nat
  | x => 0
  | y => 1
  | z => 2

/-- The axis of a number from zero to two. -/
def ofInt? : Int → Option Axis
  | 0 => some x
  | 1 => some y
  | 2 => some z
  | _ => none

/-- The axis of a place among the three, where negative places count from the last one back. -/
def ofPlace? (place : Int) : Option Axis :=
  ofInt? (if place < 0 then place + 3 else place)

/-- The unit vector at the positive end of an axis. -/
def unit : Axis → Vec
  | x => ⟨1, 0, 0⟩
  | y => ⟨0, 1, 0⟩
  | z => ⟨0, 0, 1⟩

/-- The component of a vector along an axis. -/
def component (a : Axis) (v : Vec) : Int :=
  match a with
  | x => v.x
  | y => v.y
  | z => v.z

end Axis

/-- A linear map of space, given by the rows of its matrix. -/
structure Matrix where
  row1 : Vec
  row2 : Vec
  row3 : Vec
deriving DecidableEq

namespace Matrix

/-- The image of a vector. -/
def apply (m : Matrix) (v : Vec) : Vec := ⟨m.row1.dot v, m.row2.dot v, m.row3.dot v⟩

/-- The identity. -/
def one : Matrix := ⟨⟨1, 0, 0⟩, ⟨0, 1, 0⟩, ⟨0, 0, 1⟩⟩

/-- A row vector times a matrix. -/
def rowMul (r : Vec) (m : Matrix) : Vec :=
  (m.row1.scale r.x).add ((m.row2.scale r.y).add (m.row3.scale r.z))

/-- The product of two matrices: first `b`, then `a`. -/
def mul (a b : Matrix) : Matrix := ⟨rowMul a.row1 b, rowMul a.row2 b, rowMul a.row3 b⟩

/-- A power of a matrix. -/
def pow (m : Matrix) : Nat → Matrix
  | 0 => one
  | k + 1 => (m.pow k).mul m

/-- The clockwise quarter turn about an axis. -/
def quarterTurn : Axis → Matrix
  | .x => ⟨⟨1, 0, 0⟩, ⟨0, 0, 1⟩, ⟨0, -1, 0⟩⟩
  | .y => ⟨⟨0, 0, -1⟩, ⟨0, 1, 0⟩, ⟨1, 0, 0⟩⟩
  | .z => ⟨⟨0, 1, 0⟩, ⟨-1, 0, 0⟩, ⟨0, 0, 1⟩⟩

/-- The rotation about an axis by a number of clockwise quarter turns. -/
def rotation (a : Axis) (angle : Int) : Matrix :=
  (quarterTurn a).pow (angle % 4).toNat

end Matrix

end CubeLang
