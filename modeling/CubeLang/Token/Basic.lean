/-!
# Tokens

A token is a piece of a text with its place: the characters from `start` up to `stop`. The token
that stands for the end of a text is empty and lies behind the last character.
-/

set_option autoImplicit false

namespace CubeLang

/-- What a token is; a number carries its value. -/
inductive Token.Kind where
  | word
  | number (value : Int)
  | keyword
  | endOfText
deriving DecidableEq

/-- A token of a text, from the offset `start` up to the offset `stop`. -/
structure Token where
  kind : Token.Kind
  text : String
  start : Nat
  stop : Nat
deriving DecidableEq

namespace Token

/-- The token behind a text of `length` characters. -/
def endOfText (length : Nat) : Token := ⟨.endOfText, "<EOF>", length, length⟩

/-- Whether a token stands for the end of the text. -/
def isEnd (t : Token) : Bool := t.kind = .endOfText

/-- Whether a token is a keyword. -/
def isKeyword (t : Token) : Bool := t.kind = .keyword

/-- The value of a number token. -/
def value? (t : Token) : Option Int :=
  match t.kind with
  | .number value => some value
  | _ => none

/-- The token that makes a kind of the characters `text` at an offset. -/
def ofChars (kind : Kind) (start : Nat) (text : List Char) : Token :=
  ⟨kind, String.ofList text, start, start + text.length⟩

end Token

end CubeLang
