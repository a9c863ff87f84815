import CubeLang.Notation.Basic
import CubeLang.Table
import CubeLang.Token.Cursor

/-!
# Tokenizers

A tokenizer is a lexicon at work on a text. Tokenizers that were copied from each other have one
lexicon in common: what is added to it through one of them holds for all. A pool holds the
tokenizers by name, with the lexicons they share, and the cursors that were saved.
-/

set_option autoImplicit false

namespace CubeLang

/-- A cursor over a text, with the number of the lexicon that it reads by. -/
structure Tokenizer where
  lexicon : Nat
  text : List Char := []
  cursor : Cursor := {}

/-- Tokenizers and saved cursors by name, and the lexicons that the tokenizers share. -/
structure TokenizerPool where
  lexicons : List Lexicon := []
  tokenizers : Table String Tokenizer := ∅
  saved : Table String Cursor := ∅

namespace TokenizerPool

/-- The pool with a new tokenizer, which has a lexicon of its own and nothing to read. -/
def create (pool : TokenizerPool) (name : String) : TokenizerPool :=
  { pool with
    lexicons := pool.lexicons ++ [{}]
    tokenizers := pool.tokenizers.put name { lexicon := pool.lexicons.length } }

/-- The tokenizer of a name. -/
def get? (pool : TokenizerPool) (name : String) : Option Tokenizer :=
  pool.tokenizers.get? name

/-- The lexicon of a tokenizer. -/
def lexiconOf (pool : TokenizerPool) (t : Tokenizer) : Lexicon :=
  pool.lexicons.getD t.lexicon {}

/-- The pool in which a name belongs to a tokenizer with the lexicon, the text and the cursor
of `t`. -/
def setTo (pool : TokenizerPool) (name : String) (t : Tokenizer) : TokenizerPool :=
  { pool with tokenizers := pool.tokenizers.put name t }

/-- The pool in which the lexicon of a tokenizer was replaced, for all that share it. -/
def setLexicon (pool : TokenizerPool) (t : Tokenizer) (lex : Lexicon) : TokenizerPool :=
  { pool with lexicons := pool.lexicons.set t.lexicon lex }

/-- Edits the lexicon of a tokenizer; a failing edit keeps what it had written before. -/
def edit (pool : TokenizerPool) (t : Tokenizer) (e : Lexicon.Edit) :
    Except Lexicon.Fault Unit × TokenizerPool :=
  match e.run (pool.lexiconOf t) with
  | .ok _ lex => (.ok (), pool.setLexicon t lex)
  | .error fault lex => (.error fault, pool.setLexicon t lex)

/-- The pool in which the tokenizer of a name is at the start of a new text. -/
def setText (pool : TokenizerPool) (name : String) (t : Tokenizer) (text : List Char) :
    TokenizerPool :=
  pool.setTo name { t with text, cursor := {} }

/-- Moves the cursor of the tokenizer of a name. -/
def read {α : Type} (pool : TokenizerPool) (name : String) (t : Tokenizer)
    (step : Lexicon → List Char → Cursor.Step α) : Except Cursor.Fault α × TokenizerPool :=
  match (step (pool.lexiconOf t) t.text).run t.cursor with
  | .ok a cursor => (.ok a, pool.setTo name { t with cursor })
  | .error fault cursor => (.error fault, pool.setTo name { t with cursor })

/-- The pool in which the last token of the tokenizer of a name will be read again. -/
def pushBack (pool : TokenizerPool) (name : String) (t : Tokenizer) : TokenizerPool :=
  pool.setTo name { t with cursor := t.cursor.pushBack }

/-- The pool with the cursor of a tokenizer saved. -/
def save (pool : TokenizerPool) (t : Tokenizer) (state : String) : TokenizerPool :=
  { pool with saved := pool.saved.put state t.cursor }

/-- The pool in which the tokenizer of a name has a saved cursor. -/
def restore (pool : TokenizerPool) (name : String) (t : Tokenizer) (cursor : Cursor) :
    TokenizerPool :=
  pool.setTo name { t with cursor }

/-- Makes every token of a notation a keyword. -/
def addTokensOf (n : Notation) : Lexicon.Edit :=
  Lexicon.addKeywords (n.tokens.map String.toList)

end TokenizerPool

end CubeLang
