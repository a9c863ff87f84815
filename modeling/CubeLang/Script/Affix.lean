import CubeLang.Script.Kind

/-!
# Affixes

An affix is an operator in front of or behind its operand: a repeat count, an inversion, a
reflection, or a script to conjugate, commute or rotate with. Wrapping an operand gives a script
whose span holds those of both.
-/

set_option autoImplicit false

namespace CubeLang

/-- What an affix does to its operand. -/
inductive Affix.Operation where
  | repetition (count : RepeatCount)
  | inversion
  | reflection
  | binary (k : BinaryKind) (operator : Script)

/-- An operation and the span of the text it was read from. -/
structure Affix where
  operation : Affix.Operation
  span : Span

namespace Affix

/-- The operand with the operation of an affix. -/
def wrap (a : Affix) (operand : Script) : Script :=
  let span := a.span.join operand.span
  match a.operation with
  | .repetition count => .repetition span count operand
  | .inversion => .inversion span operand
  | .reflection => .reflection span operand
  | .binary k operator => k.combine span operator operand

/-- Why there is no affix for a symbol. -/
inductive Fault where
  | repeatCount
  | operatorMissing

/-- The text of a fault. -/
def Fault.message : Fault → String
  | .repeatCount => "Repeat count must be >= 1"
  | .operatorMissing => "Affix: Operator missing."

/-- The affix of a composite symbol with a count and perhaps an operator: repetition uses the
count, inversion and reflection neither, and every other symbol the operator. Symbols other than
those of conjugation and commutation rotate. -/
def ofSymbol (s : Symbol) (span : Span) (count : Int) (operator : Option Script) :
    Except Fault Affix :=
  match s with
  | .repetition =>
    match RepeatCount.ofInt? count with
    | some count => .ok ⟨.repetition count, span⟩
    | none => .error .repeatCount
  | .inversion => .ok ⟨.inversion, span⟩
  | .reflection => .ok ⟨.reflection, span⟩
  | _ =>
    match operator with
    | none => .error .operatorMissing
    | some operator =>
      let k : BinaryKind := match s with
        | .conjugation => .conjugation
        | .commutation => .commutation
        | _ => .rotation
      .ok ⟨.binary k operator, span⟩

end Affix

end CubeLang
