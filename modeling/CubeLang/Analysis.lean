import CubeLang.Cube.CycleText
import CubeLang.Cube.Order
import CubeLang.Grammar.Parse
import CubeLang.Notation.Default
import CubeLang.Script.Run

/-!
# Analyzing scripts

The analysis of a script parses it, carries it out on a solved cube and says what that does: the
number of moves, the orders, and the state reached, written as cycles.
-/

set_option autoImplicit false

namespace CubeLang

/-- What a script does to a solved cube. -/
structure Analysis where
  script : String
  layerCount : Nat
  tree : Script
  order : Nat
  visibleOrder : Nat
  permutation : String
  visualPermutation : String
  moveCount : Nat

namespace Analysis

/-- Why a script cannot be analyzed. -/
inductive Fault where
  | language (fault : Notation.Fault)
  | otherLayerCount (language : Nat) (cube : Int)
  | lexicon (fault : Lexicon.Fault)
  | parse (error : ParseError)
  | cube (fault : Cube.Fault)
  | run (fault : Script.Fault)

/-- A solved cube of a layer count; making it is reported. -/
def createCube (layerCount : Int) : EStateM Fault Memory Cube := do
  match Cube.create layerCount with
  | .error fault => throw (.cube fault)
  | .ok cube =>
    modify fun m => m.report
      (.cubeCreated cube.layerCount (cube.count .corner) (cube.count .edge) (cube.count .side))
    return cube

/-- The analysis of a script, in a notation or the built-in one, with further macros. -/
def ofScript (script : String) (layerCount : Int) (language : Option Notation)
    (macros : Table String String) : EStateM Fault Memory Analysis := do
  let n ← match language with
    | none =>
      match Notation.default layerCount with
      | .ok n => pure n
      | .error fault => throw (.language fault)
    | some n =>
      if (n.layerCount : Int) = layerCount then pure n
      else throw (.otherLayerCount n.layerCount layerCount)
  let grammar ← match Grammar.ofNotation n macros with
    | .ok g => pure g
    | .error fault => throw (.lexicon fault)
  let tree ← EStateM.adaptExcept Fault.parse (grammar.parse script)
  let cube ← createCube layerCount
  let cube ← match (tree.apply false).run cube with
    | .ok _ cube => pure cube
    | .error fault _ => throw (.run fault)
  let moveCount ← match tree.moveCount with
    | .ok moves => pure moves
    | .error fault => throw (.run fault)
  let tokens := CycleTokens.ofNotation n
  let analysis : Analysis := {
    script, tree, moveCount
    layerCount := cube.layerCount
    order := cube.order
    visibleOrder := cube.visibleOrder
    permutation := cube.text tokens
    visualPermutation := cube.visualText tokens }
  modify fun m => m.report
    (.analyzed analysis.layerCount moveCount analysis.order analysis.visibleOrder)
  return analysis

end Analysis

end CubeLang
