import CubeLang.Script.Basic

/-!
# Running scripts

A script is carried out action by action, forward or inverse, as it stands or seen in the
reflection. What an action does is left open: `walk` visits the actions in order and stops at the
first one that fails. Turning a cube, listing the moves and counting them are three ways to visit.
-/

set_option autoImplicit false

namespace CubeLang.Script

/-- What a script does in one go. -/
inductive Action where
  | turn (span : Span) (m : Move)
  | cycle (c : PartCycle) (inverse : Bool)

/-- Why a script cannot be carried out. -/
inductive Fault where
  /-- The layers of a move inside a reflection cannot be reversed. -/
  | unreflectable
  /-- The cube lacks a location of a cycle. -/
  | noLocation
  /-- The cube refuses a turn. -/
  | cube (fault : Cube.Fault)

/-- A step that changes a state and may fail; what came before the failure stays done. -/
abbrev Step (σ α : Type) := EStateM Fault σ α

variable {σ : Type}

/-- A step done a number of times. -/
def repeated : Nat → Step σ Unit → Step σ Unit
  | 0, _ => fun s => .ok () s
  | n + 1, step => fun s =>
    match step s with
    | .ok _ s' => repeated n step s'
    | .error fault s' => .error fault s'

mutual

/-- Visits the actions of a script, `reflecting` or not, `inverse` or not. A reflection that is not
itself seen in a reflection must be able to reverse all layers below it before it does anything. -/
def walk (visit : Action → Step σ Unit) (reflecting inverse : Bool) : Script → Step σ Unit
  | move span m =>
    match if reflecting then m.reflected? else some m with
    | none => throw .unreflectable
    | some m => visit (.turn span (if inverse then m.inverse else m))
  | nop _ => pure ()
  | sequence _ children => walkAll visit reflecting inverse children
  | grouping _ children => walkAll visit reflecting inverse children
  | repetition _ count child => repeated count.value (walk visit reflecting inverse child)
  | inversion _ child => walk visit reflecting (!inverse) child
  | reflection _ child =>
    if reflecting then walk visit false inverse child
    else if child.reflected?.isNone then throw .unreflectable
    else walk visit true inverse child
  | conjugation _ a b => do
    walk visit reflecting false a
    walk visit reflecting inverse b
    walk visit reflecting true a
  | rotation _ a b => do
    walk visit reflecting true a
    walk visit reflecting inverse b
    walk visit reflecting false a
  | commutation _ a b =>
    if inverse then do
      walk visit reflecting false b
      walk visit reflecting false a
      walk visit reflecting true b
      walk visit reflecting true a
    else do
      walk visit reflecting false a
      walk visit reflecting false b
      walk visit reflecting true a
      walk visit reflecting true b
  | macroUse _ _ body => walk visit reflecting inverse body
  | permutation _ c => visit (.cycle c inverse)

/-- Visits the actions of the scripts of a list, from the last to the first when inverse. -/
def walkAll (visit : Action → Step σ Unit) (reflecting inverse : Bool) : List Script → Step σ Unit
  | [] => pure ()
  | s :: rest =>
    if inverse then do
      walkAll visit reflecting inverse rest
      walk visit reflecting inverse s
    else do
      walk visit reflecting inverse s
      walkAll visit reflecting inverse rest

end

/-- Does an action to a cube. -/
def perform : Action → Step Cube Unit
  | .turn _ m => do
    match (← get).turn m.axis m.layerMask m.angle with
    | .ok cube => set cube
    | .error fault => throw (.cube fault)
  | .cycle c inverse => do
    match c.act? inverse (← get) with
    | some cube => set cube
    | none => throw .noLocation

/-- Carries out a script on a cube. -/
def apply (s : Script) (inverse : Bool) : Step Cube Unit :=
  s.walk perform false inverse

/-- Adds a turn to a list; cycles of parts are no moves. -/
def record : Action → Step (Array (Span × Move)) Unit
  | .turn span m => modify fun moves => moves.push (span, m)
  | .cycle _ _ => pure ()

/-- The moves of a script in the order in which they are made, with their spans. -/
def resolvedMoves (s : Script) (inverse : Bool) : Except Fault (List (Span × Move)) :=
  match s.walk record false inverse #[] with
  | .ok _ moves => .ok moves.toList
  | .error fault _ => .error fault

/-- Counts a turn. -/
def count : Action → Step Nat Unit
  | .turn _ _ => modify (· + 1)
  | .cycle _ _ => pure ()

/-- The number of moves of a script. -/
def moveCount (s : Script) : Except Fault Nat :=
  match s.walk count false false 0 with
  | .ok _ n => .ok n
  | .error fault _ => .error fault

end CubeLang.Script
