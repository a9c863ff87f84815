import CubeLang.Text.Integer
import CubeLang.Token.Basic
import CubeLang.Token.Trie

/-!
# Lexicons

A lexicon says which characters separate tokens, which make numbers, and which texts are keywords
or open a comment. `scan` finds the next token at a place of a text: it skips separators and
comments, then takes the longest keyword, else the longest run of number characters, else the
longest run of characters that are neither. A run of number characters need not be a number,
because any character can be made one; then the scan has no token but still a place where it
stopped.
-/

set_option autoImplicit false

namespace CubeLang

/-- What a character is for: it separates tokens or is part of numbers. -/
inductive Lexicon.Role where
  | skip
  | digit
deriving DecidableEq

/-- The characters from `first` to `last` have a role. -/
structure Lexicon.Rule where
  first : Nat
  last : Nat
  role : Lexicon.Role

/-- The roles of characters and the keywords and comments of a language; of two rules for one
character the one in front holds. -/
structure Lexicon where
  rules : List Lexicon.Rule := []
  trie : Trie := Trie.empty

namespace Lexicon

/-- An empty text cannot be a keyword or open a comment. -/
inductive Fault where
  | emptyKeyword

/-- The text of a fault. -/
def Fault.message : Fault → String
  | .emptyKeyword => "Keyword must be non-empty"

/-- A step that changes a lexicon and may fail; the lexicon keeps what was written before. -/
abbrev Edit := EStateM Fault Lexicon Unit

/-- The role of a character, if it has one. -/
def role? (lex : Lexicon) (c : Char) : Option Role :=
  (lex.rules.find? fun r => r.first ≤ c.toNat && c.toNat ≤ r.last).map Rule.role

/-- Whether a character separates tokens. -/
def isSkip (lex : Lexicon) (c : Char) : Bool := lex.role? c = some .skip

/-- Whether a character is part of numbers. -/
def isDigit (lex : Lexicon) (c : Char) : Bool := lex.role? c = some .digit

/-- Whether a character has no role. -/
def isPlain (lex : Lexicon) (c : Char) : Bool := lex.role? c = none

/-- The lexicon in which a range of characters has a role, whatever they had before. -/
def assign (lex : Lexicon) (first last : Nat) (role : Role) : Lexicon :=
  { lex with rules := ⟨first, last, role⟩ :: lex.rules }

/-- The lexicon in which a text of one character separates tokens; other texts change nothing. -/
def addSkip (lex : Lexicon) : List Char → Lexicon
  | [c] => lex.assign c.toNat c.toNat .skip
  | _ => lex

/-- The separators of a script: the usual white space, the no-break space and the separators of
lines and paragraphs. -/
def whitespace : List Char :=
  [' ', '\x0c', '\n', '\r', '\t', '\x0b', '\u00a0', '\u2028', '\u2029']

/-- The lexicon in which white space separates tokens. -/
def skipWhitespace (lex : Lexicon) : Lexicon :=
  whitespace.foldl (fun lex c => lex.addSkip [c]) lex

/-- The lexicon in which the characters from `first` to `last` make numbers. -/
def addDigits (lex : Lexicon) (first last : Char) : Lexicon :=
  lex.assign first.toNat last.toNat .digit

/-- The lexicon in which the decimal digits make numbers. -/
def addNumbers (lex : Lexicon) : Lexicon :=
  lex.addDigits '0' '9'

/-- The lexicon with a keyword or comment opening. -/
def insert (lex : Lexicon) (e : Trie.Entry) (text : List Char) : Lexicon :=
  { lex with trie := lex.trie.insert e text }

/-- Adds a text that must not be empty. -/
def add (e : Trie.Entry) (text : List Char) : Edit := do
  if text.isEmpty then throw .emptyKeyword
  modify fun lex => lex.insert e text

/-- Adds a keyword. -/
def addKeyword (text : List Char) : Edit :=
  add .keyword text

/-- Adds keywords, up to the first that is empty. -/
def addKeywords : List (List Char) → Edit
  | [] => pure ()
  | text :: texts => do
    addKeyword text
    addKeywords texts

/-- Adds a comment that reaches from an opening up to a closing mark. -/
def addComment (opening close : List Char) : Edit :=
  add (.comment close) opening

/-! ## Scanning -/

/-- How far a text reaches up to the end of the first `close` in it; to its end if there is
none. -/
def closeLength (close : List Char) : List Char → Nat
  | [] => 0
  | c :: cs => if close.isPrefixOf (c :: cs) then close.length else closeLength close cs + 1

/-- What stands at a place of a text. -/
inductive Scan where
  /-- A token, and the text behind it. -/
  | token (t : Token) (rest : List Char)
  /-- Number characters up to the offset `stop` that make no number, and the text behind them. -/
  | unreadable (stop : Nat) (rest : List Char)
  /-- Nothing but separators and comments. -/
  | finished

/-- What stands at the offset `position`, where the text is `cs`. -/
def scan (lex : Lexicon) (position : Nat) (cs : List Char) : Scan :=
  let start := position + (cs.takeWhile lex.isSkip).length
  match _here : cs.dropWhile lex.isSkip with
  | [] => .finished
  | c :: rest =>
    match _found : lex.trie.longest? (c :: rest) with
    | some (.keyword, k) =>
      .token (.ofChars .keyword start ((c :: rest).take k)) ((c :: rest).drop k)
    | some (.comment close, k) =>
      let behind := (c :: rest).drop k
      let k' := closeLength close behind
      lex.scan (start + k + k') (behind.drop k')
    | none =>
      if lex.isDigit c then
        let digits := (c :: rest).takeWhile lex.isDigit
        let behind := (c :: rest).dropWhile lex.isDigit
        match Text.Integer.parse? digits with
        | some value => .token (.ofChars (.number value) start digits) behind
        | none => .unreadable (start + digits.length) behind
      else
        let word := (c :: rest).takeWhile lex.isPlain
        .token (.ofChars .word start word) ((c :: rest).dropWhile lex.isPlain)
termination_by cs.length
decreasing_by
  have := Trie.longest?_bounds _found
  have hle : (cs.dropWhile lex.isSkip).length ≤ cs.length := (List.dropWhile_suffix _).length_le
  rw [_here] at hle
  simp only [List.length_drop]
  omega

theorem length_dropWhile_lt {p : Char → Bool} {c : Char} {cs : List Char} (h : p c = true) :
    ((c :: cs).dropWhile p).length < (c :: cs).length := by
  rw [List.dropWhile_cons_of_pos h, List.length_cons]
  exact Nat.lt_succ_of_le ((List.dropWhile_suffix _).length_le)

/-- A character that heads a text without leading separators and is no digit has no role. -/
theorem isPlain_of_head {lex : Lexicon} {cs : List Char} {c : Char} {rest : List Char}
    (h : cs.dropWhile lex.isSkip = c :: rest) (hd : lex.isDigit c ≠ true) :
    lex.isPlain c = true := by
  have hs : lex.isSkip c = false := by
    have := List.head?_dropWhile_not lex.isSkip cs
    rw [h] at this
    simpa using this
  simp only [isSkip, isDigit, isPlain, decide_eq_true_eq, decide_eq_false_iff_not] at *
  cases hr : lex.role? c with
  | none => rfl
  | some r => cases r <;> simp_all

/-- What a scan leaves behind a token is shorter than what it was given. -/
theorem length_lt_of_scan_token {lex : Lexicon} {position : Nat} {cs : List Char} {t : Token}
    {rest : List Char} (h : lex.scan position cs = .token t rest) : rest.length < cs.length := by
  fun_induction scan lex position cs with
  | case1 => cases h
  | case2 position cs _ c tail here k found =>
    cases h
    have := Trie.longest?_bounds found
    have hle : (cs.dropWhile lex.isSkip).length ≤ cs.length := (List.dropWhile_suffix _).length_le
    rw [here] at hle
    simp only [List.length_drop]
    omega
  | case3 position cs _ c tail here close k found behind k' ih =>
    have := ih h
    have := Trie.longest?_bounds found
    have hle : (cs.dropWhile lex.isSkip).length ≤ cs.length := (List.dropWhile_suffix _).length_le
    rw [here] at hle
    simp only [behind, List.length_drop] at *
    omega
  | case4 position cs _ c tail here _ hd digits behind =>
    obtain ⟨_, rfl⟩ := Scan.token.inj h
    have hle : (cs.dropWhile lex.isSkip).length ≤ cs.length := (List.dropWhile_suffix _).length_le
    rw [here] at hle
    exact Nat.lt_of_lt_of_le (length_dropWhile_lt hd) hle
  | case5 => cases h
  | case6 position cs _ c tail here _ hd =>
    cases h
    have hle : (cs.dropWhile lex.isSkip).length ≤ cs.length := (List.dropWhile_suffix _).length_le
    rw [here] at hle
    exact Nat.lt_of_lt_of_le (length_dropWhile_lt (isPlain_of_head here hd)) hle

/-- The tokens from an offset on, and what ends them: the end of the text, or unreadable number
characters with the offset behind them. -/
def tokensFrom (lex : Lexicon) (position : Nat) (cs : List Char) : List Token × Option Nat :=
  match _found : lex.scan position cs with
  | .finished => ([], none)
  | .unreadable stop _ => ([], some stop)
  | .token t rest =>
    let (ts, ending) := lex.tokensFrom t.stop rest
    (t :: ts, ending)
termination_by cs.length
decreasing_by exact length_lt_of_scan_token _found

/-- The tokens of a text, up to the first number characters that make no number. -/
def tokens (lex : Lexicon) (text : List Char) : List Token :=
  (lex.tokensFrom 0 text).1

end Lexicon

end CubeLang
