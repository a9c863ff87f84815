import CubeLang.Cube.Cycles
import CubeLang.Notation.Basic
import CubeLang.Text.Integer

/-!
# States as texts

The state of a cube is written as cycles of parts, in the tokens of a notation. A cycle begins with
the location whose part has the least number, or in the case of edges at a place that carries on
the cycle before; each part is named by the faces that the first part's faces are carried to, and
the sign is the twist left over when the cycle comes round. The visual text leaves out what cannot
be seen on a cube whose side parts show only their colour.
-/

set_option autoImplicit false

namespace CubeLang

/-- The tokens that cycles are written with, and where their signs stand. -/
structure CycleTokens where
  fixity : Fixity := .precircumfixed
  faces : List String := ["r", "u", "f", "l", "d", "b"]
  plus : String := "+"
  plusPlus : String := "++"
  minus : String := "-"
  opening : String := "("
  closing : String := ")"
  delimiter : String := ","

namespace CycleTokens

/-- The tokens of a notation; for symbols without one, and for notations without cycles, those
used when there is no notation. -/
def ofNotation (n : Notation) : CycleTokens :=
  let usual : CycleTokens := {}
  if n.supports .permutation then
    let token (s : Symbol) (usual : String) : String := (n.token? s).getD usual
    { fixity := n.fixity .permutation
      faces := List.zipWith token Symbol.faces usual.faces
      plus := token .permutationPlus usual.plus
      plusPlus := token .permutationPlusPlus usual.plusPlus
      minus := token .permutationMinus usual.minus
      opening := token .permutationBegin usual.opening
      closing := token .permutationEnd usual.closing
      delimiter := token .permutationDelimiter usual.delimiter }
  else usual

/-- The text of a cycle with some items and a sign; fixities without a place for it drop it. -/
def cycle (k : CycleTokens) (items : List String) (sign : String) : String :=
  let body := k.delimiter.intercalate items
  match k.fixity with
  | .prefixed => sign ++ k.opening ++ body ++ k.closing
  | .precircumfixed => k.opening ++ sign ++ body ++ k.closing
  | .postcircumfixed => k.opening ++ body ++ sign ++ k.closing
  | .suffixed => k.opening ++ body ++ k.closing ++ sign
  | _ => k.opening ++ body ++ k.closing

/-- The token of a face. -/
def face (k : CycleTokens) (side : Face) : String := k.faces.getD side.index ""

/-- The mark of a twist: none, minus, double plus, plus for the quarter turns of a side part. -/
def sideMark (k : CycleTokens) (twist : Nat) : String :=
  match twist with
  | 0 => ""
  | 1 => k.minus
  | 2 => k.plusPlus
  | _ => k.plus

/-- The mark of the twist of a corner. -/
def cornerMark (k : CycleTokens) (twist : Nat) : String :=
  match twist with
  | 0 => ""
  | 1 => k.minus
  | _ => k.plus

/-- The mark of the flip of an edge. -/
def edgeMark (k : CycleTokens) (twist : Nat) : String :=
  if twist = 0 then "" else k.plus

end CycleTokens

/-- The number behind the faces of a part in a round: cubes with an even layer count number their
rounds from one, the others do not number the first. -/
def roundText (layerCount round : Nat) : String :=
  if layerCount % 2 = 0 then toString (round + 1)
  else if round = 0 then ""
  else toString round

/-- The twists that the first part of a cycle gathers on its way to each location. -/
def gatheredTwists (a : Arrangement) (modulus : Nat) : Nat → List Nat → List Nat
  | _, [] => []
  | twist, location :: rest =>
    let twist := (twist + (a.slot location).twist) % modulus
    twist :: gatheredTwists a modulus twist rest

/-- The items of a cycle, and the twist left over. An item is written from its location and the
twist that the first part has when it comes there. -/
def cycleItems (a : Arrangement) (modulus : Nat) (write : Nat → Nat → String) :
    List Nat → List String × Nat
  | [] => ([], 0)
  | first :: rest =>
    let twists := gatheredTwists a modulus 0 rest
    (write first 0 :: List.zipWith write rest twists,
      (twists.getLastD 0 + (a.slot first).twist) % modulus)

/-- A list turned round so that it begins at a place. -/
def turnedTo {α : Type} (k : Nat) (xs : List α) : List α := xs.drop k ++ xs.take k

/-- The place of the first least number in a list. -/
def leastPlace (xs : List Nat) : Nat :=
  xs.findIdx fun x => xs.all fun y => x ≤ y

namespace Cube

/-- The name of a corner location as seen by a part with a twist. -/
def cornerName (k : CycleTokens) (location twist : Nat) : String :=
  String.join ((turnedTo ((3 - twist) % 3) (cornerFaces.getD location [])).map k.face)

/-- The cycles of the corners. -/
def cornerTexts (c : Cube) (k : CycleTokens) : List String :=
  c.corners.cycles.map fun cycle =>
    let start := leastPlace (cycle.map fun location => (c.corners.slot location).part)
    let (items, twist) := cycleItems c.corners 3 (cornerName k) (turnedTo start cycle)
    k.cycle items (k.cornerMark twist)

/-- The name of an edge location as seen by a part with a flip. -/
def edgeName (layerCount : Nat) (k : CycleTokens) (location flip : Nat) : String :=
  String.join ((turnedTo flip (edgeFaces.getD (location % 12) [])).map k.face)
    ++ roundText layerCount (location / 12)

/-- Cycles of edges, each turned to the last of its places on the same edge of the cube as the
first place of the cycle before; `edge` is where that was. -/
def alignedCycles : (edge : Option Nat) → List (List Nat) → List (List Nat)
  | _, [] => []
  | edge, cycle :: rest =>
    let places := cycle.map fun location => some (location % 12)
    let start := if places.contains edge then places.length - 1 - places.reverse.idxOf edge else 0
    let cycle := turnedTo start cycle
    cycle :: alignedCycles (cycle.head?.map fun location => location % 12) rest

/-- The cycles of the edge parts. -/
def edgeTexts (c : Cube) (k : CycleTokens) : List String :=
  (alignedCycles none c.edges.cycles).map fun cycle =>
    let (items, flip) := cycleItems c.edges 2 (edgeName c.layerCount k) cycle
    k.cycle items (k.edgeMark flip)

/-- The name of a side location with a mark, in front of the face or behind it. -/
def sideName (layerCount : Nat) (k : CycleTokens) (mark : Nat → String)
    (location twist : Nat) : String :=
  let face := k.face (.ofIndex location)
  let marked := match k.fixity with
    | .prefixed | .precircumfixed | .postcircumfixed => mark twist ++ face
    | .suffixed => face ++ mark twist
    | _ => face
  marked ++ roundText layerCount (location / 6)

/-- Whether the locations of a cycle of side parts are all on one face. -/
def onOneFace (cycle : List Nat) : Bool :=
  cycle.all fun location => location % 6 = cycle.headD 0 % 6

/-- The cycles of the side parts, those on one face first. Seen from outside a part alone does
nothing, and no part is twisted. -/
def sideTexts (c : Cube) (k : CycleTokens) (visual : Bool) : List String :=
  let cycles := c.sides.cycles
  let cycles := cycles.filter onOneFace ++ cycles.filter fun cycle => !onOneFace cycle
  let cycles := if visual then cycles.filter fun cycle => cycle.length ≠ 1 else cycles
  let mark (twist : Nat) : String := if visual then "" else k.sideMark twist
  cycles.map fun cycle =>
    let cycle := turnedTo (leastPlace cycle) cycle
    let (items, twist) := cycleItems c.sides 4 (sideName c.layerCount k mark) cycle
    k.cycle items (mark twist)

/-- Cycles side by side. -/
def joined (cycles : List String) : String := " ".intercalate cycles

/-- The text of the corners. -/
def cornerText (c : Cube) (k : CycleTokens) : String := joined (c.cornerTexts k)

/-- The text of the edge parts. -/
def edgeText (c : Cube) (k : CycleTokens) : String := joined (c.edgeTexts k)

/-- The text of the side parts. -/
def sideText (c : Cube) (k : CycleTokens) : String := joined (c.sideTexts k false)

/-- The text of the side parts as seen from outside. -/
def visualSideText (c : Cube) (k : CycleTokens) : String := joined (c.sideTexts k true)

/-- The texts that are not empty, a line each; an empty cycle if there is none. -/
def lines (k : CycleTokens) (texts : List String) : String :=
  match texts.filter fun text => !text.isEmpty with
  | [] => k.opening ++ k.closing
  | texts => "\n".intercalate texts

/-- The text of a state: corners, edge parts and side parts. -/
def text (c : Cube) (k : CycleTokens) : String :=
  lines k [c.cornerText k, c.edgeText k, c.sideText k]

/-- The text of a state as seen from outside. -/
def visualText (c : Cube) (k : CycleTokens) : String :=
  lines k [c.cornerText k, c.edgeText k, c.visualSideText k]

end Cube

end CubeLang
