import CubeLang.Log
import CubeLang.Notation.Basic
import CubeLang.Script.Affix
import CubeLang.Token.Lexicon

/-!
# Grammars

A grammar is a notation ready for reading scripts, with its macros and its lexicon. Reading a text
goes from a list of tokens to what was read and the tokens left over, which are fewer; so every
reader ends. Only the bodies of macros are remembered from one text to the next.
-/

set_option autoImplicit false

namespace CubeLang

/-- A notation with the macros and the lexicon for its scripts. -/
structure Grammar where
  terms : Notation
  macros : Table String String
  lexicon : Lexicon

namespace Grammar

/-- The lexicon of a notation with macros. A comment opening is no keyword, and block comments need
a closing token. -/
def lexiconOf (n : Notation) (macros : Table String String) : Lexicon.Edit := do
  Lexicon.addKeywords (n.tokens.map String.toList)
  Lexicon.addKeywords (macros.keys.map String.toList)
  if let some close := n.token? .blockCommentEnd then
    for opening in n.tokensFor .blockCommentBegin do
      Lexicon.addComment opening.toList close.toList
  for opening in n.tokensFor .lineCommentBegin do
    Lexicon.addComment opening.toList ['\n']

/-- The grammar of a notation with further macros; those of the notation come before them. A macro
must have a name. -/
def ofNotation (n : Notation) (macros : Table String String) :
    Except Lexicon.Fault Grammar :=
  let macros := macros.putAll n.macros.entries
  match (lexiconOf n macros).run ({} : Lexicon).skipWhitespace.addNumbers with
  | .ok _ lexicon => .ok { terms := n, macros, lexicon }
  | .error fault _ => .error fault

/-- The symbols of a token. -/
def symbols (g : Grammar) (t : Token) : List Symbol :=
  if t.isKeyword then g.terms.symbolsFor t.text else []

/-- Whether a token stands for a symbol. -/
def isA (g : Grammar) (s : Symbol) (t : Token) : Bool :=
  (g.symbols t).contains s

/-- Whether a token stands for a symbol and for nothing else. -/
def isOnly (g : Grammar) (s : Symbol) (t : Token) : Bool :=
  g.isA s t && (g.symbols t).all fun s' => s' = s

/-- The fixity of a composite. -/
def fixity (g : Grammar) (s : Symbol) : Fixity := g.terms.fixity s

end Grammar

/-- What is remembered while reading texts: the bodies of macros that were read, the macros whose
bodies are being read, the innermost first, and the events to report, the earliest first. -/
structure Memory where
  bodies : Table String Script := ∅
  inProgress : List String := []
  events : List Event := []

namespace Memory

/-- The memory with one more event. -/
def report (m : Memory) (e : Event) : Memory := { m with events := m.events ++ [e] }

/-- The memory while the body of a macro is being read. -/
def enter (m : Memory) (identifier : String) : Memory :=
  { m with inProgress := identifier :: m.inProgress }

/-- The memory when the body of a macro is no longer being read. -/
def leave (m : Memory) (identifier : String) : Memory :=
  { m with inProgress := m.inProgress.erase identifier }

end Memory

/-- What was read from less than `bound` tokens, and the tokens left over. -/
structure Parsed (bound : Nat) (α : Type) where
  value : α
  rest : List Token
  shorter : rest.length < bound

namespace Parsed

variable {α β : Type} {m n : Nat}

/-- Read from fewer tokens, it was also read from more. -/
def widen (p : Parsed m α) (h : m ≤ n) : Parsed n α :=
  ⟨p.value, p.rest, Nat.lt_of_lt_of_le p.shorter h⟩

/-- Something else made of what was read. -/
def map (f : α → β) (p : Parsed n α) : Parsed n β := ⟨f p.value, p.rest, p.shorter⟩

end Parsed

/-- A list of tokens is no longer than itself. -/
theorem length_le_self (ts : List Token) : ts.length ≤ ts.length := Nat.le_refl _

/-- Without its first token a list is no longer. -/
theorem length_tail_le_self (ts : List Token) : ts.tail.length ≤ ts.length := by simp

/-- Reading with a memory, which may fail; the memory is kept then too. -/
abbrev Reader (α : Type) := EStateM ParseError Memory α

/-- Takes what a reader without a memory gives. -/
def Reader.lift {α : Type} (r : Except ParseError α) : Reader α :=
  match r with
  | .ok a => pure a
  | .error e => throw e

/-- A grammar at work on one text: its length, and what to do with the use of a macro. -/
structure Reading where
  grammar : Grammar
  length : Nat
  expand : Token → Reader Script

/-- The next token, which is the end of the text if there is no other. -/
def Reading.peek (r : Reading) (ts : List Token) : Token :=
  ts.headD (Token.endOfText r.length)

end CubeLang
