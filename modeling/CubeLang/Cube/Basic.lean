import CubeLang.Cube.Turn
import CubeLang.LayerMask

/-!
# Cubes

A cube has an arrangement for each kind of part. Cubes with two to seven layers are supported.
Everything that changes a cube checks its arguments first, so that a refused change leaves the cube
as it was.
-/

set_option autoImplicit false

namespace CubeLang

/-- A cube of `layerCount` layers with its parts arranged. -/
structure Cube where
  layerCount : Nat
  corners : Arrangement
  edges : Arrangement
  sides : Arrangement
deriving DecidableEq

namespace Cube

/-- Why a cube cannot be made or changed. -/
inductive Fault where
  | unsupported (layerCount : Int)
  | axis (given : Int)
  | mask (given : Int) (layerCount : Nat)
  | angle (given : Int)
  | partsLength (kind : PartKind) (count : Nat)
  | notPermutation (kind : PartKind) (count : Nat)
  | otherLayerCount
deriving DecidableEq

/-- The layer counts of the supported cubes. -/
def supported : List Int := [2, 3, 4, 5, 6, 7]

/-- The text of a fault. -/
def Fault.message : Fault → String
  | .unsupported n =>
    s!"Unsupported layer count {n}. Supported: " ++ ", ".intercalate (supported.map toString)
  | .axis given => s!"axis must be 0, 1 or 2, got {given}"
  | .mask given n => s!"layer_mask {given} out of range for {n} layers"
  | .angle given => s!"angle must be -2, -1, 1 or 2, got {given}"
  | .partsLength kind count => s!"Expected {count} {kind.name} entries"
  | .notPermutation kind count =>
    s!"{kind.name} locations must be a permutation of 0..{count - 1}"
  | .otherLayerCount => "Cannot copy state between cubes of different layer counts"

/-- The solved cube of `n` layers. -/
def solved (n : Nat) : Cube where
  layerCount := n
  corners := .solved (PartKind.corner.count n)
  edges := .solved (PartKind.edge.count n)
  sides := .solved (PartKind.side.count n)

/-- The solved cube of a supported layer count. -/
def create (layerCount : Int) : Except Fault Cube :=
  if supported.contains layerCount then .ok (solved layerCount.toNat)
  else .error (.unsupported layerCount)

/-- The number of parts of a kind. -/
def count (c : Cube) (kind : PartKind) : Nat := kind.count c.layerCount

/-- The arrangement of the parts of a kind. -/
def arrangement (c : Cube) : PartKind → Arrangement
  | .corner => c.corners
  | .edge => c.edges
  | .side => c.sides

/-- The cube with the parts of one kind arranged anew. -/
def setArrangement (c : Cube) (kind : PartKind) (a : Arrangement) : Cube :=
  match kind with
  | .corner => { c with corners := a }
  | .edge => { c with edges := a }
  | .side => { c with sides := a }

/-- The cube whose parts of a kind were rearranged. -/
def rearrange (c : Cube) (kind : PartKind) (a : Arrangement) : Cube :=
  c.setArrangement kind ((c.arrangement kind).andThen kind.modulus a)

/-- Whether every part is in its place and untwisted. -/
def isSolved (c : Cube) : Bool := c = solved c.layerCount

/-- The solved cube with as many layers. -/
def reset (c : Cube) : Cube := solved c.layerCount

/-- The cube after a turn of the layers in `mask` across an axis. -/
def turnLayers (c : Cube) (axis : Axis) (mask : Nat) (angle : Int) : Cube :=
  PartKind.all.foldl
    (fun c kind => c.rearrange kind (Turn.arrangement c.layerCount kind axis mask angle)) c

/-- The cube after a turn given by numbers, which may be no turn of this cube. -/
def turn (c : Cube) (axis mask angle : Int) : Except Fault Cube :=
  match Axis.ofInt? axis with
  | none => .error (.axis axis)
  | some a =>
    if !LayerMask.isOf mask c.layerCount then .error (.mask mask c.layerCount)
    else if [-2, -1, 1, 2].contains angle then
      .ok (if mask = 0 then c else c.turnLayers a mask.toNat angle)
    else .error (.angle angle)

/-- The cube with the parts of one kind put where two lists say; the parts must be all the parts
there are, and twists count modulo the number of ways in which a part can stand. -/
def setParts (c : Cube) (kind : PartKind) (parts twists : List Int) : Except Fault Cube :=
  let count := c.count kind
  if parts.length ≠ count || twists.length ≠ count then .error (.partsLength kind count)
  else if (List.range count).all fun i => parts.contains i then
    .ok (c.setArrangement kind (.ofLists kind.modulus (parts.map Int.toNat) twists))
  else .error (.notPermutation kind count)

/-- The cube with the parts of another one, which must have as many layers. -/
def setTo (c other : Cube) : Except Fault Cube :=
  if other.layerCount = c.layerCount then .ok other else .error .otherLayerCount

end Cube

end CubeLang
