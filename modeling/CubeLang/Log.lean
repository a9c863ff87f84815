import CubeLang.Grammar.ParseError
import CubeLang.Text.Quoted

/-!
# Log events

What the library has to report beside its results. An event has a level and a source; which events
are shown is for the command line to say.
-/

set_option autoImplicit false

namespace CubeLang

/-- Something worth reporting. -/
inductive Event where
  /-- A text, or the body of a macro, is no script. -/
  | parseFailed (error : ParseError)
  /-- The body of a macro was read for the first time and has so many statements. -/
  | expanded (identifier : String) (statements : Nat)
  /-- A cube was made. -/
  | cubeCreated (layerCount corners edges sides : Nat)
  /-- A script was analyzed. -/
  | analyzed (layerCount moves order visibleOrder : Nat)

namespace Event

/-- How much an event matters; more is more. -/
inductive Level where
  | debug | info
deriving DecidableEq

/-- The name of a level. -/
def Level.name : Level → String
  | .debug => "DEBUG"
  | .info => "INFO"

/-- The rank of a level among the levels from which events can be shown. -/
def Level.rank : Level → Nat
  | .debug => 10
  | .info => 20

/-- The level of an event. -/
def level : Event → Level
  | .analyzed .. => .info
  | _ => .debug

/-- The name of the part of the program that reports an event. -/
def source : Event → String
  | .parseFailed _ | .expanded .. => "cubescript.parser"
  | .cubeCreated .. => "cubescript.cube"
  | .analyzed .. => "cubescript.cubes"

/-- The text of an event. -/
def message : Event → String
  | .parseFailed e => s!"Parse failed at {e.span.start}..{e.span.stop}: {e.message}"
  | .expanded identifier statements =>
    "Expanded macro " ++ String.ofList (Text.quoted identifier.toList)
      ++ s!" into {statements} nodes"
  | .cubeCreated n corners edges sides =>
    s!"Created {n}x{n}x{n} cube: {corners} corners, {edges} edges, {sides} sides"
  | .analyzed n moves order visibleOrder =>
    s!"Analyzed {n}x{n}x{n} script: {moves} moves, order {order}, visible order {visibleOrder}"

/-- The line of an event in a log. -/
def line (e : Event) : String :=
  s!"{e.level.name} {e.source}: {e.message}"

end Event

end CubeLang
