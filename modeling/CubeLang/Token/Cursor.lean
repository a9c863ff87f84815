import CubeLang.Token.Lexicon

/-!
# Cursors

A cursor reads the tokens of a text one by one. The token it read last can be pushed back, to be
read once more, and a cursor can be saved and put back later. Behind the last token it reads the
end of the text as often as it is asked.
-/

set_option autoImplicit false

namespace CubeLang

/-- A place in a text, the token read last, and whether it is to be read again. -/
structure Cursor where
  position : Nat := 0
  pushedBack : Bool := false
  token : Token := Token.endOfText 0

namespace Cursor

/-- Number characters that make no number stand at the cursor. -/
inductive Fault where
  | unreadableNumber

/-- A step that moves a cursor and may fail; a failing step leaves the place it came to. -/
abbrev Step (α : Type) := EStateM Fault Cursor α

/-- Reads a token. -/
def next (lex : Lexicon) (text : List Char) : Step Token := do
  let c ← get
  if c.pushedBack then
    set { c with pushedBack := false }
    return c.token
  match lex.scan c.position (text.drop c.position) with
  | .finished =>
    let t := Token.endOfText text.length
    set { position := text.length, token := t : Cursor }
    return t
  | .unreadable stop _ =>
    set { c with position := stop }
    throw .unreadableNumber
  | .token t _ =>
    set { position := t.stop, token := t : Cursor }
    return t

/-- The cursor that will read its token again. -/
def pushBack (c : Cursor) : Cursor :=
  { c with pushedBack := true }

/-- Reads all tokens up to the end of the text, which is not one of them. -/
def drain (lex : Lexicon) (text : List Char) : Step (List Token) := do
  let c ← get
  if c.pushedBack && c.token.isEnd then
    set { c with pushedBack := false }
    return []
  let again := if c.pushedBack then [c.token] else []
  match lex.tokensFrom c.position (text.drop c.position) with
  | (ts, none) =>
    set { position := text.length, token := Token.endOfText text.length : Cursor }
    return again ++ ts
  | (ts, some stop) =>
    set { position := stop, token := ts.getLastD c.token : Cursor }
    throw .unreadableNumber

end Cursor

end CubeLang
