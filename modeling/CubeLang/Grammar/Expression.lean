import CubeLang.Grammar.Statement

/-!
# Reading expressions

An expression is a statement with its affixes, and perhaps an operator behind it with a further
expression. A script is one expression after the other up to the end of the text.
-/

set_option autoImplicit false

namespace CubeLang.Reading

/-- The way to combine two expressions that a token between them stands for, and its fixity. -/
def infixOf? (r : Reading) (t : Token) : Option (BinaryKind × Fixity) :=
  BinaryKind.commutationFirst.findSome? fun k =>
    let f := r.grammar.fixity k.composite
    if (f = .infixedFirst || f = .infixedSecond) && r.grammar.isA k.delimiter t then some (k, f)
    else none

/-- Reads a statement with its affixes. Those in front bind first, the innermost next to the
statement, then those behind. -/
def readConstruct (r : Reading) (ts : List Token) (inner : Inner ts.length) :
    Reader (Parsed ts.length Script) := do
  let ⟨affixes, rest, hrest⟩ ← r.readPrefixes inner ts (length_le_self ts)
  have hrest : rest.length ≤ ts.length := by omega
  let ⟨s, rest', hrest'⟩ ← r.readStatement rest (inner.restrict hrest)
  let s := affixes.foldr Affix.wrap s
  let p ← r.readSuffixes inner s rest' (by omega)
  return p.widen (by omega)

/-- Reads an expression. -/
def readExpression (r : Reading) (ts : List Token) : Reader (Parsed ts.length Script) := do
  let ⟨s, rest, hrest⟩ ← r.readConstruct ts fun ts' _ => r.readExpression ts'
  match hinfix : r.infixOf? (r.peek rest) with
  | none => return ⟨s, rest, hrest⟩
  | some (k, f) =>
    have htail := length_tail_le_self rest
    let ⟨other, rest', hrest'⟩ ← r.readExpression rest.tail
    let span : Span := ⟨s.span.start, other.span.stop⟩
    let both := if f = .infixedFirst then k.combine span s other else k.combine span other s
    return ⟨both, rest', by omega⟩
termination_by ts.length

/-- Reads expressions up to the end of the text. -/
def readAll (r : Reading) (ts : List Token) : Reader (List Script) :=
  match ts with
  | [] => return []
  | t :: rest => do
    let ⟨s, rest', _⟩ ← r.readExpression (t :: rest)
    let scripts ← r.readAll rest'
    return s :: scripts
termination_by ts.length
decreasing_by assumption

end CubeLang.Reading
