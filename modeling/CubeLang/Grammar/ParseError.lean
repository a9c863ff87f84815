import CubeLang.Cube.PartCycle
import CubeLang.Script.Kind
import CubeLang.Token.Basic

/-!
# Parse errors

A text that is no script has a cause, a place, and often a token that was found where another was
expected. An error inside the body of a macro is reported at the use of the macro.
-/

set_option autoImplicit false

namespace CubeLang

/-- Why a text is no script. -/
inductive ParseError.Cause where
  | repeatCountMissing
  | repeatCount (given : Int)
  | affixStatementMissing
  | statementExpected
  | illegalStatement
  | closingMissing
  | illegalDelimiter
  | secondDelimiter
  /-- No way to combine scripts, or several, fit the brackets and delimiters. -/
  | compound (possible : List CompoundKind)
  | permutationOpeningExpected
  | permutationClosingMissing
  | permutationClosingExpected
  | permutationSign
  | faceMissing
  | partOfSmallCube (text : String)
  | partNumber (kind : PartKind) (layerCount : Nat) (given : Int)
  | part (fault : PartCycle.Fault)
  | macroInItself (identifier : String)
  | inMacro (identifier : String) (cause : ParseError.Cause)

/-- The text of a cause. -/
def ParseError.Cause.text : ParseError.Cause → String
  | .repeatCountMissing => "Repetitor: Repeat count missing."
  | .repeatCount given => s!"Repetitor: Illegal repeat count {given}."
  | .affixStatementMissing => "Affix: Statement missing."
  | .statementExpected => "Statement: Keyword or Number expected."
  | .illegalStatement => "Statement: Illegal statement."
  | .closingMissing => "Grouping: End missing."
  | .illegalDelimiter => "Grouping: Illegal delimiter."
  | .secondDelimiter => "Grouping: Delimiter must occur only once."
  | .compound [] => "Compound Statement: Illegal compound statement."
  | .compound possible =>
    "Compound Statement: Ambiguous compound statement, possibilities are "
      ++ " or ".intercalate (possible.map CompoundKind.name) ++ "."
  | .permutationOpeningExpected =>
    "Permutation: Unexpected token - expected permutation begin."
  | .permutationClosingMissing => "Permutation: End missing."
  | .permutationClosingExpected => "Permutation: End expected."
  | .permutationSign => "Permutation: Illegal sign."
  | .faceMissing => "PermutationItem: Face token missing."
  | .partOfSmallCube text =>
    s!"PermutationItem: The 2x2 cube does not have a \"{text}\" part."
  | .partNumber .corner _ given => s!"PermutationItem: Invalid corner part number: {given}"
  | .partNumber kind n given =>
    s!"PermutationItem: Invalid {kind.name} part number for {n}x{n} cube: {given}"
  | .part fault => "PermutationItem: " ++ fault.message?.getD "" ++ "."
  | .macroInItself identifier => s!"Macro \"{identifier}\": cyclic reference."
  | .inMacro identifier cause => s!"Error in macro \"{identifier}\": " ++ cause.text

/-- Why and where a text is no script, and the text of the token found there. -/
structure ParseError where
  cause : ParseError.Cause
  span : Span
  found : Option String := none

namespace ParseError

/-- The text of an error without the token found. -/
def text (e : ParseError) : String := e.cause.text

/-- The text of an error. -/
def message (e : ParseError) : String :=
  match e.found with
  | none => e.text
  | some found => e.text ++ s!" Found \"{found}\"."

end ParseError

/-- The span of a token. -/
def Token.span (t : Token) : Span := ⟨t.start, t.stop⟩

/-- The error that a token was found where another was expected. -/
def ParseError.ofToken (cause : ParseError.Cause) (t : Token) : ParseError :=
  ⟨cause, t.span, some t.text⟩

end CubeLang
