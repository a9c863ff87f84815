import CubeLang.Proofs.Grammar.GroupedText
import CubeLang.Proofs.Grammar.ScriptPlaces
import CubeLang.Proofs.Grammar.Signed
import CubeLang.Proofs.Grammar.Suffixes

/-!
# Texts with affixes on the next lines

A text that the built-in notation without macros reads as one script may be followed by affixes, each on
a line of its own. The end of a line ends whatever stands on it but an open block comment. So the tokens
of the text are there as before, with those of the affixes behind them, and the affixes go around the
script from the first one to the last one.
-/

set_option autoImplicit false

namespace CubeLang

namespace Suffix

/-- The text of some affixes, each behind the end of a line. -/
def lines : List Suffix → String
  | [] => ""
  | x :: xs => "\n" ++ x.text ++ lines xs

variable {xs : List Suffix}

theorem toList_lines_cons (x : Suffix) (xs : List Suffix) :
    (lines (x :: xs)).toList = '\n' :: (x.text.toList ++ (lines xs).toList) := by
  rw [lines, String.toList_append, String.toList_append]
  rfl

/-- Behind an affix the text ends, or its line does. -/
theorem head?_lines : ∀ c ∈ (lines xs).toList.head?, c = '\n' := by
  intro c hc
  cases xs with
  | nil => contradiction
  | cons x xs =>
    rw [toList_lines_cons] at hc
    exact (Option.some.inj hc).symm

end Suffix

namespace Grammar

variable {n : Nat} {h : 2 ≤ n} {f : Fixity} {x : Suffix} {xs : List Suffix} {tail : List Char}

/-! ## The tokens of affixes -/

theorem isSkip_newline : (signed n h f).lexicon.isSkip '\n' = true := by
  show Lexicon.base.isSkip '\n' = true
  decide

/-- A keyword behind which the line ends is the next token. -/
theorem scan_token_of_newline {w : String} (hw : w ∈ ["'", "-", "*"])
    (htail : ∀ c ∈ tail.head?, c = '\n') (position : Nat) :
    (signed n h f).lexicon.scan position (w.toList ++ tail) =
      .token (.ofChars .keyword position w.toList) tail := by
  have hfacts : ∀ w ∈ ["'", "-", "*"], w ∈ Notation.defaultTokens.map Prod.snd ∧
      (w ≠ "/*" ∧ w ≠ "//") ∧ ¬Notation.Capital w ∧
      w.toList.head?.any Lexicon.base.isSkip = false := by decide
  have hlines : ∀ v ∈ Notation.defaultTokens.map Prod.snd, '\n' ∉ v.toList := by decide
  obtain ⟨hmem, hcomment, hcapital, hskip⟩ := hfacts w hw
  apply scan_token hmem hcomment hcapital hskip
  intro v hv u hu hprefix heq
  obtain ⟨c, u, rfl⟩ := List.exists_cons_of_ne_nil hu
  obtain ⟨rest, rfl⟩ := hprefix
  obtain rfl := htail c rfl
  exact hlines v hv (by simp [heq])

/-- An affix behind which the line ends is the next token. -/
theorem scan_suffix (hx : x.Proper (Notation.signed n h f)) (htail : ∀ c ∈ tail.head?, c = '\n')
    (position : Nat) :
    (signed n h f).lexicon.scan position (x.text.toList ++ tail) = .token (x.token position) tail := by
  cases x with
  | inversion operator =>
    have hoperators : ∀ b ∈ Notation.defaultTokens, b.1 = .inversionOperator →
        b.2 ∈ ["'", "-", "*"] := by decide
    have hsymbol := Notation.mem_symbolsFor.mpr (Notation.mem_tokensFor.mp hx)
    have htoken := (Notation.mem_symbolsFor_signed h (by decide)).mp hsymbol
    exact scan_token_of_newline (hoperators _ (List.mem_filter.mp htoken).1 rfl) htail position
  | reflection => exact scan_token_of_newline (w := "*") (by decide) htail position
  | repetition count digits =>
    have hdigits : ∀ c ∈ digits.toList, c.isDigit = true := List.all_eq_true.mp hx.1
    have hvalue : Text.Integer.parse? digits.toList = some (count.value : Int) := by
      rw [Text.Integer.parse?_of_isDigit (Suffix.digits_ne_nil hx) hdigits, hx.2]
    apply Lexicon.scan_digits_append _ _ _ hvalue position
    · intro c hc
      exact (Lexicon.isDigit_base c).trans (hdigits c hc)
    · intro c cs hc
      exact longest?_of_isDigit c cs ((Lexicon.isDigit_base c).symm.trans hc)
    · intro c hc
      rw [htail c hc]
      exact Lexicon.isDigit_base '\n'

/-- The tokens of affixes on lines of their own are those of the affixes. -/
theorem tokensFrom_lines (hxs : ∀ x ∈ xs, x.Proper (Notation.signed n h f)) (place : Nat) :
    (signed n h f).lexicon.tokensFrom place (Suffix.lines xs).toList =
      (Suffix.tokens place xs, none) := by
  induction xs generalizing place with
  | nil => exact Lexicon.tokensFrom_nil _ _
  | cons x xs ih =>
    obtain ⟨hx, hxs⟩ := List.forall_mem_cons.mp hxs
    have hscan : (signed n h f).lexicon.scan place (Suffix.lines (x :: xs)).toList =
        .token (x.token (place + 1)) (Suffix.lines xs).toList := by
      rw [Suffix.toList_lines_cons, Lexicon.scan_skip place isSkip_newline,
        scan_suffix hx Suffix.head?_lines]
    have hothers : (signed n h f).lexicon.tokensFrom (x.token (place + 1)).stop
        (Suffix.lines xs).toList = (Suffix.tokens (x.stop place) xs, none) := ih hxs _
    rw [Lexicon.tokensFrom_of_token hscan, hothers, Suffix.tokens]

/-- The tokens of a text with affixes on the next lines are its own and those of the affixes. -/
theorem tokens_suffixed {cs : List Char} (hxs : ∀ x ∈ xs, x.Proper (Notation.signed n h f))
    (hcomment : (signed n h f).lexicon.openComment? cs ≠ some ['*', '/']) :
    (signed n h f).lexicon.tokens (cs ++ (Suffix.lines xs).toList) =
      (signed n h f).lexicon.tokens cs ++ Suffix.tokens cs.length xs := by
  have hlines := tokensFrom_lines hxs cs.length
  cases xs with
  | nil => simp [Suffix.lines, Suffix.tokens]
  | cons x xs =>
    rw [Suffix.toList_lines_cons] at hlines ⊢
    rw [Lexicon.tokensFrom_congr (Lexicon.scan_skip cs.length isSkip_newline)] at hlines
    have hnames : ∀ name ∈ (∅ : Table String String).keys, Groupable name := by rintro name ⟨⟩
    have hends := endsAt_newline hnames hcomment (x.text.toList ++ (Suffix.lines xs).toList) 0
      (Lexicon.ending_eq_none Lexicon.decimal_of_isDigit_base)
    rw [Nat.zero_add] at hends
    exact (congrArg Prod.fst hends).trans (congrArg (_ ++ ·) (congrArg Prod.fst hlines))

/-! ## Texts with affixes -/

variable {layerCount : Int} {terms : Notation} {g : Grammar} {text : String} {root s : Script}
variable {m m' : Memory}

/-- **Affixes behind a script go around it from the first to the last.** A text without an open block
comment that is parsed as one script, followed by any inversion operators, asterisks and positive numbers
on lines of their own, is parsed as one script again: the same script in the nodes of the affixes, each
from the start of the script to the end of the affix. -/
theorem parse_suffixed (hterms : Notation.default layerCount = .ok terms)
    (hgrammar : Grammar.ofNotation terms ∅ = .ok g) (hparse : g.parse text m = .ok root m')
    (hone : root.children = [s])
    (hcomment : g.lexicon.openComment? text.toList ≠ some ['*', '/'])
    (hxs : ∀ x ∈ xs, x.Proper g.terms) :
    g.parse (text ++ Suffix.lines xs) m =
      .ok (.sequence ⟨0, (text ++ Suffix.lines xs).toList.length⟩ [s.suffixed text.toList.length xs])
        m' := by
  obtain ⟨n, h, rfl⟩ := ofNotation_default hterms (by rintro name ⟨⟩) hgrammar
  obtain ⟨scripts, rfl, hread⟩ := exists_readAll_of_parse hparse
  obtain rfl : scripts = [s] := hone
  obtain ⟨-, hle, hstop⟩ := ((Reading.derives_readAll hread).placed
    (tokensOrdered_tokens _ text)).between (List.mem_singleton_self s)
  have htokens : (builtIn n h .precircumfixed ∅).lexicon.tokens (text ++ Suffix.lines xs).toList =
      (builtIn n h .precircumfixed ∅).lexicon.tokens text.toList ++
        Suffix.tokens text.toList.length xs := by
    rw [String.toList_append]
    exact tokens_suffixed hxs hcomment
  apply parse_of_readAll
  rw [htokens]
  exact Reading.readAll_suffixed rfl (by decide) (reading_expandsAnywhere _ _ _) _ hxs
    (Int.le_trans hle hstop) hstop hread

/-- A conjugated commutator with an affix and a comment behind it. -/
def conjugatedCommutator : String := " <F>[R, (+urf,ubr)2]' // turned"

/-- Four affixes to stand behind a script. -/
def fourSuffixes : List Suffix :=
  [.inversion "-", .repetition ⟨12, by decide⟩ "012", .reflection, .inversion "'"]

theorem parse_suffixed_conjugatedCommutator : ∃ terms g root m' s,
    Notation.default 2 = .ok terms ∧ Grammar.ofNotation terms ∅ = .ok g ∧
    g.parse conjugatedCommutator {} = .ok root m' ∧ root.children = [s] ∧
    g.lexicon.openComment? conjugatedCommutator.toList ≠ some ['*', '/'] ∧
    (∀ x ∈ fourSuffixes, x.Proper g.terms) ∧
    g.parse " <F>[R, (+urf,ubr)2]' // turned\n-\n012\n*\n'" {} =
      .ok (.sequence ⟨0, 41⟩ [.inversion ⟨1, 41⟩ (.reflection ⟨1, 39⟩
        (.repetition ⟨1, 37⟩ ⟨12, by decide⟩ (.inversion ⟨1, 33⟩ s)))]) m' := by
  let g := builtIn 2 (by decide) .precircumfixed ∅
  have hterms : Notation.default 2 = .ok (Notation.signed 2 (by decide) .precircumfixed) := rfl
  have hgrammar : Grammar.ofNotation (Notation.signed 2 (by decide) .precircumfixed) ∅ =
      .ok g := ofNotation_builtIn (by rintro name ⟨⟩)
  obtain ⟨hspans, hcomment, hxs, htext⟩ :
      ((outcome (g.parse conjugatedCommutator {})).toOption.map fun root =>
        root.children.map Script.span) = some [⟨1, 21⟩] ∧
      g.lexicon.openComment? conjugatedCommutator.toList ≠ some ['*', '/'] ∧
      (∀ x ∈ fourSuffixes, x.Proper g.terms) ∧
      conjugatedCommutator ++ Suffix.lines fourSuffixes =
        " <F>[R, (+urf,ubr)2]' // turned\n-\n012\n*\n'" := by
    decide +kernel
  cases hparse : g.parse conjugatedCommutator {} with
  | error e m' =>
    rw [hparse] at hspans
    exact nomatch hspans
  | ok root m' =>
    rw [hparse] at hspans
    obtain ⟨s, hone, hspan⟩ := List.map_eq_singleton_iff.mp (Option.some.inj hspans)
    have hsuffixed := parse_suffixed hterms hgrammar hparse hone hcomment hxs
    rw [htext] at hsuffixed
    simp only [fourSuffixes, Script.suffixed, Suffix.span_around, hspan] at hsuffixed
    exact ⟨_, g, root, m', s, hterms, hgrammar, hparse, hone, hcomment, hxs, hsuffixed⟩

end Grammar

end CubeLang
