import CubeLang.Cube.Cycles

/-!
# Orders

The order of a state is the number of times that what led to it must be done to solve the cube. A
cycle comes round after as many times as it is long, and if its parts are twisted then, after as
many rounds more as bring the twist to nothing. On a cube whose side parts show only their colour
some of this cannot be seen: the visible order counts what can.
-/

set_option autoImplicit false

namespace CubeLang

/-- The number of times after which the parts of a cycle are home and untwisted. -/
def Arrangement.cycleOrder (a : Arrangement) (modulus : Nat) (cycle : List Nat) : Nat :=
  let twist := a.cycleTwist modulus cycle
  if twist = 0 then cycle.length else cycle.length * (modulus / Nat.gcd modulus twist)

/-- The number of times after which all parts are home and untwisted. -/
def Arrangement.order (a : Arrangement) (modulus : Nat) : Nat :=
  (a.cycles.map (a.cycleOrder modulus)).foldl Nat.lcm 1

/-- Whether a list repeats itself with a period. -/
def hasPeriod (faces : List Nat) (period : Nat) : Bool :=
  faces.length % period = 0 && faces.drop period = faces.take (faces.length - period)

/-- The least number of places by which a list can be turned round onto itself. -/
def leastPeriod (faces : List Nat) : Nat :=
  ((List.range' 1 (faces.length - 1)).find? (hasPeriod faces)).getD faces.length

/-- The number of times after which the side parts of a cycle look as they did: each location
shows a part of the same face again. -/
def Arrangement.visibleCycleOrder (a : Arrangement) (cycle : List Nat) : Nat :=
  leastPeriod (cycle.map fun location => (a.slot location).part % 6)

/-- The number of times after which all side parts look as they did. -/
def Arrangement.visibleOrder (a : Arrangement) : Nat :=
  (a.cycles.map a.visibleCycleOrder).foldl Nat.lcm 1

namespace Cube

/-- The number of times that what led to this state must be done to solve the cube. -/
def order (c : Cube) : Nat :=
  ((c.corners.order 3).lcm (c.edges.order 2)).lcm (c.sides.order 4)

/-- The number of times that what led to this state must be done for the cube to look solved. -/
def visibleOrder (c : Cube) : Nat :=
  ((c.corners.order 3).lcm (c.edges.order 2)).lcm c.sides.visibleOrder

end Cube

end CubeLang
