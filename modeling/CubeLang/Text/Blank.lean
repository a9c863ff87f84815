/-!
# Blanks, words and lines

A text is a list of characters. This file fixes which characters are blanks and which end a line,
and cuts a text into words and lines. `normalize` is the form in which a script reaches the
command line: one blank between two words, no blank at either end of a line, no empty line. Line
breaks stay, because a line comment ends at the line break.
-/

set_option autoImplicit false

namespace CubeLang.Text

/-- A blank is a white-space character of the Unicode standard or an information separator. -/
def isBlank (c : Char) : Bool :=
  let n := c.toNat
  (9 ≤ n && n ≤ 13) || (28 ≤ n && n ≤ 32) || n == 0x85 || n == 0xA0 || n == 0x1680
    || (0x2000 ≤ n && n ≤ 0x200A) || n == 0x2028 || n == 0x2029 || n == 0x202F || n == 0x205F
    || n == 0x3000

/-- Whether a character ends a line. A line feed behind a carriage return ends one more line, an
empty one, and empty lines are not kept. -/
def isLineEnd (c : Char) : Bool :=
  let n := c.toNat
  (10 ≤ n && n ≤ 13) || (28 ≤ n && n ≤ 30) || n == 0x85 || n == 0x2028 || n == 0x2029

/-- The pieces of a text between the characters that satisfy `p`, empty ones included. -/
def pieces (p : Char → Bool) : List Char → List (List Char)
  | [] => [[]]
  | c :: cs =>
    if p c then [] :: pieces p cs
    else match pieces p cs with
      | [] => [[c]]
      | w :: ws => (c :: w) :: ws

/-- The words of a text: its longest runs without a blank. -/
def words (text : List Char) : List (List Char) :=
  (pieces isBlank text).filter fun w => !w.isEmpty

/-- One line with single blanks between its words. -/
def normalizeLine (line : List Char) : List Char :=
  [' '].intercalate (words line)

/-- The normal form of a script: the normalized lines that are not empty. -/
def normalize (text : List Char) : List Char :=
  ['\n'].intercalate (((pieces isLineEnd text).map normalizeLine).filter fun l => !l.isEmpty)

/-- The text without the blanks at its two ends. -/
def strip (text : List Char) : List Char :=
  ((text.dropWhile isBlank).reverse.dropWhile isBlank).reverse

/-- Every line end is a blank. -/
theorem isBlank_of_isLineEnd (c : Char) (h : isLineEnd c = true) : isBlank c = true := by
  simp only [isLineEnd, isBlank, Bool.or_eq_true, Bool.and_eq_true, decide_eq_true_eq,
    beq_iff_eq] at h ⊢
  omega

/-- Every character that core calls white space is a blank. -/
theorem isBlank_of_isWhitespace (c : Char) (h : c.isWhitespace = true) : isBlank c = true := by
  simp only [Char.isWhitespace, Bool.or_eq_true, decide_eq_true_eq] at h
  rcases h with ((rfl | rfl) | rfl) | rfl <;> rfl

end CubeLang.Text
