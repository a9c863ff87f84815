import CubeLang.Proofs.Token.Spelling

/-!
# Tokens at other offsets

A token keeps its kind and its text when it moves. What a lexicon reads from a text does not depend
on where the text stands, but for the offsets.
-/

set_option autoImplicit false

namespace CubeLang

namespace Token

/-- A token whose offsets were moved. -/
def relocate (f : Nat → Nat) (t : Token) : Token :=
  { t with start := f t.start, stop := f t.stop }

variable {f : Nat → Nat}

@[simp] theorem kind_relocate (t : Token) : (t.relocate f).kind = t.kind := rfl

@[simp] theorem text_relocate (t : Token) : (t.relocate f).text = t.text := rfl

@[simp] theorem start_relocate (t : Token) : (t.relocate f).start = f t.start := rfl

@[simp] theorem stop_relocate (t : Token) : (t.relocate f).stop = f t.stop := rfl

theorem ofChars_add (kind : Kind) (start k : Nat) (text : List Char) :
    ofChars kind (start + k) text = (ofChars kind start text).relocate (· + k) := by
  simp only [ofChars, relocate, mk.injEq, true_and]
  omega

end Token

namespace Lexicon

/-- What stands at a place, moved to another one. -/
def Scan.relocate (f : Nat → Nat) : Scan → Scan
  | .token t rest => .token (t.relocate f) rest
  | .unreadable stop rest => .unreadable (f stop) rest
  | .finished => .finished

theorem scan_add (lex : Lexicon) (position k : Nat) (cs : List Char) :
    lex.scan (position + k) cs = (lex.scan position cs).relocate (· + k) := by
  have hstart : position + k + (cs.takeWhile lex.isSkip).length =
      position + (cs.takeWhile lex.isSkip).length + k := by omega
  fun_induction lex.scan position cs with
  | case1 =>
    rename_i here
    rw [scan_of_dropWhile here]
    rfl
  | case2 position cs start c rest here length found =>
    rw [scan_of_dropWhile here, scanBehind_keyword found, hstart, Token.ofChars_add]
    rfl
  | case3 position cs start c rest here close length found behind k' ih =>
    have hmoved : position + k + (cs.takeWhile lex.isSkip).length + length + k' =
        start + length + k' + k := by omega
    rw [scan_of_dropWhile here, scanBehind_comment found, hmoved]
    exact ih (by omega)
  | case4 position cs start c rest here found digit digits behind value hvalue =>
    rw [scan_of_dropWhile here, scanBehind_digits found digit, hvalue, hstart]
    dsimp only
    rw [Token.ofChars_add]
    rfl
  | case5 =>
    rename_i position cs start c rest here found digit digits behind hvalue
    have hmoved : position + k + (cs.takeWhile lex.isSkip).length + digits.length =
        start + digits.length + k := by omega
    rw [scan_of_dropWhile here, scanBehind_digits found digit, hvalue, hmoved]
    rfl
  | case6 =>
    rename_i position cs start c rest here found digit word
    rw [scan_of_dropWhile here, scanBehind_word found digit, hstart, Token.ofChars_add]
    rfl

/-- The tokens of a text that stands elsewhere are its tokens at other offsets. -/
theorem tokensFrom_add (lex : Lexicon) (position k : Nat) (cs : List Char) :
    lex.tokensFrom (position + k) cs =
      ((lex.tokensFrom position cs).1.map (Token.relocate (· + k)),
        (lex.tokensFrom position cs).2.map (· + k)) := by
  fun_induction lex.tokensFrom position cs with
  | case1 position cs found =>
    rw [tokensFrom_eq, scan_add, found]
    rfl
  | case2 position cs stop rest found =>
    rw [tokensFrom_eq, scan_add, found]
    rfl
  | case3 position cs t rest found ts ending hrest ih =>
    rw [hrest] at ih
    rw [tokensFrom_eq, scan_add, found]
    simp only [Scan.relocate, Token.stop_relocate, ih, List.map_cons]

end Lexicon

end CubeLang
