import CubeLang.Cube.PartCycle
import CubeLang.Move
import CubeLang.Script.Span

/-!
# Scripts

A script is a tree of moves, cycles of parts and ways to combine them. Every node has the span of
the text it was read from; the body of a macro has spans in the macro's own text. Scripts also come
without a text, with any numbers in their moves and spans.
-/

set_option autoImplicit false

namespace CubeLang

/-- How often a script is repeated: at least once. -/
structure RepeatCount where
  value : Nat
  positive : 0 < value

/-- A count from a number, if the number is positive. -/
def RepeatCount.ofInt? (n : Int) : Option RepeatCount :=
  if h : 0 < n.toNat then some ⟨n.toNat, h⟩ else none

/-- A script. -/
inductive Script where
  | move (span : Span) (m : Move)
  | nop (span : Span)
  | sequence (span : Span) (children : List Script)
  | grouping (span : Span) (children : List Script)
  | repetition (span : Span) (count : RepeatCount) (child : Script)
  | inversion (span : Span) (child : Script)
  | reflection (span : Span) (child : Script)
  /-- First the conjugator, then the operand, then the conjugator undone. -/
  | conjugation (span : Span) (conjugator operand : Script)
  /-- First the rotator undone, then the operand, then the rotator. -/
  | rotation (span : Span) (rotator operand : Script)
  /-- The commutator and the operand, then the commutator undone and the operand undone. -/
  | commutation (span : Span) (commutator operand : Script)
  | macroUse (span : Span) (identifier : String) (body : Script)
  | permutation (span : Span) (cycle : PartCycle)

namespace Script

/-- The span of the text that a script was read from. -/
def span : Script → Span
  | move span _ | nop span | sequence span _ | grouping span _ | repetition span _ _
  | inversion span _ | reflection span _ | conjugation span _ _ | rotation span _ _
  | commutation span _ _ | macroUse span _ _ | permutation span _ => span

mutual

/-- The script seen in the cube's point reflection: each move turns the reversed layers. Two
reflections cancel, and a cycle of parts stays as it is. There is none if a move's layers cannot be
reversed. -/
def reflected? : Script → Option Script
  | move span m => m.reflected?.map (move span)
  | nop span => some (nop span)
  | sequence span children => (reflectedAll? children).map (sequence span)
  | grouping span children => (reflectedAll? children).map (grouping span)
  | repetition span count child => child.reflected?.map (repetition span count)
  | inversion span child => child.reflected?.map (inversion span)
  | reflection _ child => some child
  | conjugation span a b => do
    let a ← a.reflected?
    let b ← b.reflected?
    return conjugation span a b
  | rotation span a b => do
    let a ← a.reflected?
    let b ← b.reflected?
    return rotation span a b
  | commutation span a b => do
    let a ← a.reflected?
    let b ← b.reflected?
    return commutation span a b
  | macroUse span identifier body => body.reflected?.map (macroUse span identifier)
  | permutation span cycle => some (permutation span cycle)

/-- The scripts of a list, all seen in the reflection. -/
def reflectedAll? : List Script → Option (List Script)
  | [] => some []
  | s :: rest => do
    let s ← s.reflected?
    let rest ← reflectedAll? rest
    return s :: rest

end

end Script

end CubeLang
