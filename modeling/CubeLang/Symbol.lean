/-!
# Symbols and fixities

A script language is a choice of tokens for a fixed set of symbols. A symbol with a dotted name is
part of the composite symbol named before the first dot. Each composite has a fixity, which says
where its operator or sign stands.
-/

set_option autoImplicit false

namespace CubeLang

/-- The symbols of the script language: the twelve composites first, then their parts. -/
inductive Symbol where
  | nop | move | macroName | permutation | grouping | inversion | reflection | repetition
  | conjugation | commutation | rotation | comment
  | faceR | faceU | faceF | faceL | faceD | faceB
  | permutationPlus | permutationMinus | permutationPlusPlus
  | permutationBegin | permutationEnd | permutationDelimiter
  | groupingBegin | groupingEnd
  | inversionBegin | inversionEnd | inversionOperator
  | reflectionBegin | reflectionEnd | reflectionOperator
  | repetitionBegin | repetitionEnd
  | conjugationBegin | conjugationEnd | conjugationDelimiter
  | commutationBegin | commutationEnd | commutationDelimiter
  | rotationBegin | rotationEnd | rotationOperator
  | blockCommentBegin | blockCommentEnd | lineCommentBegin
deriving DecidableEq

namespace Symbol

/-- The symbols in their fixed order. -/
def all : List Symbol := [
  nop, move, macroName, permutation, grouping, inversion, reflection, repetition,
  conjugation, commutation, rotation, comment,
  faceR, faceU, faceF, faceL, faceD, faceB,
  permutationPlus, permutationMinus, permutationPlusPlus,
  permutationBegin, permutationEnd, permutationDelimiter,
  groupingBegin, groupingEnd,
  inversionBegin, inversionEnd, inversionOperator,
  reflectionBegin, reflectionEnd, reflectionOperator,
  repetitionBegin, repetitionEnd,
  conjugationBegin, conjugationEnd, conjugationDelimiter,
  commutationBegin, commutationEnd, commutationDelimiter,
  rotationBegin, rotationEnd, rotationOperator,
  blockCommentBegin, blockCommentEnd, lineCommentBegin]

/-- The dotted name of a symbol. -/
def name : Symbol → String
  | nop => "nop"
  | move => "move"
  | macroName => "macro"
  | permutation => "permutation"
  | grouping => "grouping"
  | inversion => "inversion"
  | reflection => "reflection"
  | repetition => "repetition"
  | conjugation => "conjugation"
  | commutation => "commutation"
  | rotation => "rotation"
  | comment => "comment"
  | faceR => "permutation.face.r"
  | faceU => "permutation.face.u"
  | faceF => "permutation.face.f"
  | faceL => "permutation.face.l"
  | faceD => "permutation.face.d"
  | faceB => "permutation.face.b"
  | permutationPlus => "permutation.plus"
  | permutationMinus => "permutation.minus"
  | permutationPlusPlus => "permutation.plusplus"
  | permutationBegin => "permutation.begin"
  | permutationEnd => "permutation.end"
  | permutationDelimiter => "permutation.delimiter"
  | groupingBegin => "grouping.begin"
  | groupingEnd => "grouping.end"
  | inversionBegin => "inversion.begin"
  | inversionEnd => "inversion.end"
  | inversionOperator => "inversion.operator"
  | reflectionBegin => "reflection.begin"
  | reflectionEnd => "reflection.end"
  | reflectionOperator => "reflection.operator"
  | repetitionBegin => "repetition.begin"
  | repetitionEnd => "repetition.end"
  | conjugationBegin => "conjugation.begin"
  | conjugationEnd => "conjugation.end"
  | conjugationDelimiter => "conjugation.delimiter"
  | commutationBegin => "commutation.begin"
  | commutationEnd => "commutation.end"
  | commutationDelimiter => "commutation.delimiter"
  | rotationBegin => "rotation.begin"
  | rotationEnd => "rotation.end"
  | rotationOperator => "rotation.operator"
  | blockCommentBegin => "comment.multiline.begin"
  | blockCommentEnd => "comment.multiline.end"
  | lineCommentBegin => "comment.singleline.begin"

/-- The symbol of a dotted name. -/
def ofName? (text : String) : Option Symbol :=
  all.find? fun s => s.name = text

/-- The composite that a symbol belongs to; a composite belongs to itself. -/
def composite : Symbol → Symbol
  | faceR | faceU | faceF | faceL | faceD | faceB
  | permutationPlus | permutationMinus | permutationPlusPlus
  | permutationBegin | permutationEnd | permutationDelimiter => permutation
  | groupingBegin | groupingEnd => grouping
  | inversionBegin | inversionEnd | inversionOperator => inversion
  | reflectionBegin | reflectionEnd | reflectionOperator => reflection
  | repetitionBegin | repetitionEnd => repetition
  | conjugationBegin | conjugationEnd | conjugationDelimiter => conjugation
  | commutationBegin | commutationEnd | commutationDelimiter => commutation
  | rotationBegin | rotationEnd | rotationOperator => rotation
  | blockCommentBegin | blockCommentEnd | lineCommentBegin => comment
  | s => s

/-- Whether `s` is a part of the composite `c`. -/
def isPartOf (s c : Symbol) : Bool :=
  s ≠ c && s.composite = c

/-- The composites of which a symbol is a part: none, or the one that it belongs to. -/
def composites (s : Symbol) : List Symbol :=
  all.filter s.isPartOf

/-- The faces in the order in which parts number them. -/
def faces : List Symbol := [faceR, faceU, faceF, faceL, faceD, faceB]

/-- The signs of a permutation cycle. -/
def signs : List Symbol := [permutationPlus, permutationMinus, permutationPlusPlus]

/-- The name of a symbol inside a message. -/
def label : Symbol → String
  | nop => "Symbol.NOP"
  | move => "Symbol.MOVE"
  | macroName => "Symbol.MACRO"
  | permutation => "Symbol.PERMUTATION"
  | grouping => "Symbol.GROUPING"
  | inversion => "Symbol.INVERSION"
  | reflection => "Symbol.REFLECTION"
  | repetition => "Symbol.REPETITION"
  | conjugation => "Symbol.CONJUGATION"
  | commutation => "Symbol.COMMUTATION"
  | rotation => "Symbol.ROTATION"
  | comment => "Symbol.COMMENT"
  | faceR => "Symbol.FACE_R"
  | faceU => "Symbol.FACE_U"
  | faceF => "Symbol.FACE_F"
  | faceL => "Symbol.FACE_L"
  | faceD => "Symbol.FACE_D"
  | faceB => "Symbol.FACE_B"
  | permutationPlus => "Symbol.PERMUTATION_PLUS"
  | permutationMinus => "Symbol.PERMUTATION_MINUS"
  | permutationPlusPlus => "Symbol.PERMUTATION_PLUSPLUS"
  | permutationBegin => "Symbol.PERMUTATION_BEGIN"
  | permutationEnd => "Symbol.PERMUTATION_END"
  | permutationDelimiter => "Symbol.PERMUTATION_DELIMITER"
  | groupingBegin => "Symbol.GROUPING_BEGIN"
  | groupingEnd => "Symbol.GROUPING_END"
  | inversionBegin => "Symbol.INVERSION_BEGIN"
  | inversionEnd => "Symbol.INVERSION_END"
  | inversionOperator => "Symbol.INVERSION_OPERATOR"
  | reflectionBegin => "Symbol.REFLECTION_BEGIN"
  | reflectionEnd => "Symbol.REFLECTION_END"
  | reflectionOperator => "Symbol.REFLECTION_OPERATOR"
  | repetitionBegin => "Symbol.REPETITION_BEGIN"
  | repetitionEnd => "Symbol.REPETITION_END"
  | conjugationBegin => "Symbol.CONJUGATION_BEGIN"
  | conjugationEnd => "Symbol.CONJUGATION_END"
  | conjugationDelimiter => "Symbol.CONJUGATION_DELIMITER"
  | commutationBegin => "Symbol.COMMUTATION_BEGIN"
  | commutationEnd => "Symbol.COMMUTATION_END"
  | commutationDelimiter => "Symbol.COMMUTATION_DELIMITER"
  | rotationBegin => "Symbol.ROTATION_BEGIN"
  | rotationEnd => "Symbol.ROTATION_END"
  | rotationOperator => "Symbol.ROTATION_OPERATOR"
  | blockCommentBegin => "Symbol.MULTILINE_COMMENT_BEGIN"
  | blockCommentEnd => "Symbol.MULTILINE_COMMENT_END"
  | lineCommentBegin => "Symbol.SINGLELINE_COMMENT_BEGIN"

/-- Every symbol stands in the list of all symbols. -/
theorem mem_all (s : Symbol) : s ∈ all := by
  cases s <;> decide

/-- The composite of a composite is the composite itself. -/
@[simp] theorem composite_composite (s : Symbol) : s.composite.composite = s.composite := by
  cases s <;> rfl

end Symbol

/-- Where the operator or sign of a composite stands: nowhere, before or after the operand, around
it, around it with the operator or sign behind the opening or before the closing token, or between
two operands of which the first or the second is the operator. -/
inductive Fixity where
  | primary | prefixed | suffixed | circumfixed | precircumfixed | postcircumfixed
  | infixedFirst | infixedSecond
deriving DecidableEq

namespace Fixity

/-- The fixities in their fixed order. -/
def all : List Fixity :=
  [primary, prefixed, suffixed, circumfixed, precircumfixed, postcircumfixed,
    infixedFirst, infixedSecond]

/-- The name of a fixity. -/
def name : Fixity → String
  | primary => "PRIMARY"
  | prefixed => "PREFIX"
  | suffixed => "SUFFIX"
  | circumfixed => "CIRCUMFIX"
  | precircumfixed => "PRECIRCUMFIX"
  | postcircumfixed => "POSTCIRCUMFIX"
  | infixedFirst => "PREINFIX"
  | infixedSecond => "POSTINFIX"

/-- The fixity of a name. -/
def ofName? (text : String) : Option Fixity :=
  all.find? fun f => f.name = text

end Fixity

end CubeLang
