import CubeLang.LayerMask

/-!
# Moves

A move turns some of the layers across one axis by a number of clockwise quarter turns, seen from
the positive end of the axis. A move that a notation knows has a legal axis and a legal set of
layers; a script tree may hold any four numbers.
-/

set_option autoImplicit false

namespace CubeLang

/-- A turn of the layers in `layerMask`, out of `layerCount`, across an axis. -/
structure Move where
  layerCount : Int
  axis : Int
  layerMask : Int
  angle : Int
deriving DecidableEq

namespace Move

/-- Why four numbers are no legal move. -/
inductive Fault where
  /-- The axis is not one of the three. -/
  | axis (given : Int)
  /-- The set of layers is negative or holds a layer that is not there. -/
  | mask (given layerCount : Int)
  /-- There is no set of layers for a negative number of layers. -/
  | negativeLayerCount

/-- The text of a fault. -/
def Fault.message : Fault → String
  | .axis given => s!"Move axis must be 0, 1 or 2, got {given}"
  | .mask given layerCount => s!"Illegal layer mask {given} for layer count {layerCount}"
  | .negativeLayerCount => "negative shift count"

/-- The fault of a move, if it has one. -/
def fault? (m : Move) : Option Fault :=
  if m.axis < 0 || 2 < m.axis then some (.axis m.axis)
  else if m.layerMask < 0 then some (.mask m.layerMask m.layerCount)
  else if m.layerCount < 0 then some .negativeLayerCount
  else if LayerMask.isOf m.layerMask m.layerCount.toNat then none
  else some (.mask m.layerMask m.layerCount)

/-- The turn by the opposite angle. -/
def inverse (m : Move) : Move :=
  { m with angle := -m.angle }

/-- The layers seen from the other end of the axis; negative numbers are no set of layers. -/
def reversedMask? (mask layerCount : Int) : Option Int :=
  if mask < 0 || layerCount < 0 then none
  else some (LayerMask.reverse mask.toNat layerCount.toNat)

/-- The move seen in the cube's point reflection: the same angle about the reversed layers. -/
def reflected? (m : Move) : Option Move :=
  (reversedMask? m.layerMask m.layerCount).map fun mask => { m with layerMask := mask }

end Move

end CubeLang
