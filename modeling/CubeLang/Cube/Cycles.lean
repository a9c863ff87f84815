import CubeLang.Cube.Basic

/-!
# Cycles of an arrangement

A part that is out of place stands where another part belongs, which stands where a third one
belongs, and so on round to the first. The cycle of a location lists the locations met on this way:
behind each location comes the one that holds its part. The cycles of an arrangement are those of
the locations that are not solved, each written from its least location on.
-/

set_option autoImplicit false

namespace CubeLang.Arrangement

/-- The location that holds a part; the number of locations if none does. -/
def holder (a : Arrangement) (part : Nat) : Nat :=
  a.toList.findIdx fun s => s.part = part

/-- The holders of all parts in order. -/
def holders (a : Arrangement) : Array Nat :=
  Array.ofFn fun part : Fin a.size => a.holder part

/-- The way from a location on until it comes back to `start`, in at most `steps` steps. -/
def walk (next : Array Nat) (start : Nat) : (steps : Nat) → (location : Nat) → List Nat
  | 0, _ => []
  | steps + 1, location =>
    if location = start then []
    else location :: walk next start steps (next.getD location start)

/-- The cycle of a location, from that location on. -/
def cycleOf (next : Array Nat) (start : Nat) : List Nat :=
  start :: walk next start next.size (next.getD start start)

/-- Whether a location holds its own part, untwisted. -/
def isSolvedAt (a : Arrangement) (location : Nat) : Bool :=
  a.slot location = ⟨location, 0⟩

/-- The cycles of the locations that are not solved, in order of their least locations. -/
def cycles (a : Arrangement) : List (List Nat) :=
  let next := a.holders
  (List.range a.size).filterMap fun start =>
    if a.isSolvedAt start then none
    else
      let cycle := cycleOf next start
      if cycle.all fun location => start ≤ location then some cycle else none

/-- The twist that a part gets on its way round a cycle. -/
def cycleTwist (a : Arrangement) (modulus : Nat) (cycle : List Nat) : Nat :=
  cycle.foldr (fun location sum => (a.slot location).twist + sum) 0 % modulus

end CubeLang.Arrangement
