import CubeLang.Script.Basic

/-!
# Ways to combine scripts

Conjugation, commutation and rotation combine two scripts; grouping, inversion and reflection
enclose one. Each of the six can be written with brackets of its own.
-/

set_option autoImplicit false

namespace CubeLang

/-- The ways to combine two scripts. -/
inductive BinaryKind where
  | conjugation | commutation | rotation
deriving DecidableEq

namespace BinaryKind

/-- The composite symbol of a way to combine. -/
def composite : BinaryKind → Symbol
  | conjugation => .conjugation
  | commutation => .commutation
  | rotation => .rotation

/-- The symbol of its opening bracket. -/
def opening : BinaryKind → Symbol
  | conjugation => .conjugationBegin
  | commutation => .commutationBegin
  | rotation => .rotationBegin

/-- The symbol of its closing bracket. -/
def closing : BinaryKind → Symbol
  | conjugation => .conjugationEnd
  | commutation => .commutationEnd
  | rotation => .rotationEnd

/-- The symbol that stands between the two scripts. -/
def delimiter : BinaryKind → Symbol
  | conjugation => .conjugationDelimiter
  | commutation => .commutationDelimiter
  | rotation => .rotationOperator

/-- Two scripts combined; the first is the operator. -/
def combine (k : BinaryKind) (span : Span) (operator operand : Script) : Script :=
  match k with
  | conjugation => .conjugation span operator operand
  | commutation => .commutation span operator operand
  | rotation => .rotation span operator operand

/-- The order in which an operator or a bracket is tried. -/
def commutationFirst : List BinaryKind := [commutation, conjugation, rotation]

/-- The order in which a closing bracket is tried. -/
def conjugationFirst : List BinaryKind := [conjugation, commutation, rotation]

end BinaryKind

/-- The ways to combine or enclose scripts with brackets. -/
inductive CompoundKind where
  | grouping | inversion | reflection
  | binary (k : BinaryKind)
deriving DecidableEq

namespace CompoundKind

/-- The compound kinds in the order in which a message lists them. -/
def all : List CompoundKind :=
  [grouping, inversion, reflection, binary .conjugation, binary .commutation, binary .rotation]

/-- The name of a compound kind inside a message. -/
def name : CompoundKind → String
  | grouping => "Grouping"
  | inversion => "Inversion"
  | reflection => "Reflection"
  | binary .conjugation => "Conjugation"
  | binary .commutation => "Commutation"
  | binary .rotation => "Rotation"

/-- The symbol of its opening bracket. -/
def opening : CompoundKind → Symbol
  | grouping => .groupingBegin
  | inversion => .inversionBegin
  | reflection => .reflectionBegin
  | binary k => k.opening

/-- The symbol of its closing bracket. -/
def closing : CompoundKind → Symbol
  | grouping => .groupingEnd
  | inversion => .inversionEnd
  | reflection => .reflectionEnd
  | binary k => k.closing

/-- Whether a compound kind combines two scripts. -/
def isBinary : CompoundKind → Bool
  | binary _ => true
  | _ => false

end CompoundKind

end CubeLang
