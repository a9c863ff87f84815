import CubeLang.Text.Blank
import CubeLang.Text.DecimalDigit

/-!
# Integers in a text

The decimal integers that a script, an environment variable or a command line may hold: digits of
any script, single underscores between digits, a sign in front, blanks around the whole.
-/

set_option autoImplicit false

namespace CubeLang.Text.Integer

/-- The blanks that may stand around an integer: all but the information separators. -/
def isPadding (c : Char) : Bool :=
  isBlank c && !(28 ≤ c.toNat && c.toNat ≤ 31)

/-- The number whose digits follow those of `value`; an underscore stands between two digits. -/
def continued? (value : Nat) : List Char → Option Nat
  | [] => some value
  | '_' :: c :: cs => (DecimalDigit.value? c).bind fun d => continued? (10 * value + d) cs
  | c :: cs => (DecimalDigit.value? c).bind fun d => continued? (10 * value + d) cs

/-- The number written by digits, at least one. -/
def natural? : List Char → Option Nat
  | [] => none
  | c :: cs => (DecimalDigit.value? c).bind fun d => continued? d cs

/-- The integer written by a sign and digits. -/
def signed? : List Char → Option Int
  | '+' :: cs => (natural? cs).map Int.ofNat
  | '-' :: cs => (natural? cs).map fun n => -(n : Int)
  | cs => (natural? cs).map Int.ofNat

/-- The integer that a text holds. -/
def parse? (text : List Char) : Option Int :=
  signed? (((text.dropWhile isPadding).reverse.dropWhile isPadding).reverse)

end CubeLang.Text.Integer
