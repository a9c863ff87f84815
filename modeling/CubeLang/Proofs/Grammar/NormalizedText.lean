import CubeLang.Proofs.Grammar.InsertedBlanks
import CubeLang.Proofs.Grammar.MeaningfulTokens
import CubeLang.Proofs.Token.CondensedText
import Mathlib.Data.List.DropRight

/-!
# Scripts in their normal form

The command line parses the normal form of what it is given. For the built-in notation this is the same
script: the keywords hold no blanks, an accepted text has no words, and condensing the blanks between
tokens leaves the lexemes as they were. But a comment up to the end of its line ends at a line feed only,
while the normal form has a line feed for every line end. So a comment that goes on behind another line
end is cut short, and what stood in it is read as a script.
-/

set_option autoImplicit false

namespace CubeLang.Grammar

open Text (isBlank)
open Lexicon (OnOneLine)

/-- The name of a macro that is one word. -/
structure OneWord (name : String) : Prop where
  ne_empty : name ≠ ""
  no_blank : ∀ c ∈ name.toList, isBlank c = false

variable {n : Nat} {h : 2 ≤ n} {f : Fixity} {macros : Table String String}

theorem isBlank_of_isSkip {c : Char} (hc : (builtIn n h f macros).lexicon.isSkip c = true) :
    isBlank c = true := by
  have hwhitespace : ∀ c ∈ Lexicon.whitespace, isBlank c = true :=
    List.all_iff_forall_prop.mp (by decide)
  have hc : Lexicon.base.isSkip c = true := hc
  unfold Lexicon.isSkip at hc
  rw [Lexicon.role?_base] at hc
  split at hc
  · exact absurd hc Bool.false_ne_true
  · split at hc
    · exact hwhitespace c ‹_›
    · exact absurd hc Bool.false_ne_true

variable (hnames : ∀ name ∈ macros.keys, OneWord name)
include hnames

/-- Blanks are part of no keyword and of no number. -/
theorem spaced_builtIn : (builtIn n h f macros).lexicon.Spaced where
  skip _ hc := isBlank_of_isSkip hc
  digit c hc := by
    have hdigit : c.isDigit = true := by rwa [← Lexicon.isDigit_base c]
    exact Text.isBlank_of_isAlphanum (by simp [Char.isAlphanum, hdigit])
  keyword v e he c hc := by
    have htokens : ∀ token ∈ Notation.defaultTokens.map Prod.snd,
        (token.toList.all fun c => isBlank c = false) = true := by decide
    rcases exists_of_lookup? he hc with (hword | rfl) | ⟨token, htoken, hc⟩ | ⟨name, hname, hc⟩
    · exact Text.isBlank_of_isAlphanum hword
    · rfl
    · exact List.all_iff_forall_prop.mp (htokens token htoken) c hc
    · exact (hnames name hname).no_blank c hc
  close _ _ he := close_of_lookup? he

/-- The normal form of a text has its lexemes, if none is a word and every comment up to the end of the
line is on one line. -/
theorem lexemes_normalize {text : List Char}
    (hwords : ∀ l ∈ ((builtIn n h f macros).lexicon.tokens text).map Token.lexeme, l.1 ≠ .word)
    (hcomments : ∀ comment ∈ (builtIn n h f macros).lexicon.comments text,
      comment.1 = ['\n'] → OnOneLine comment.2) :
    ((builtIn n h f macros).lexicon.tokens (Text.normalize text)).map Token.lexeme =
      ((builtIn n h f macros).lexicon.tokens text).map Token.lexeme := by
  have hcondensed := Text.condenses_normalize text
  refine Lexicon.lexemes_of_condenses (spaced_builtIn hnames) (fun c hc hblank => ?_) ?_ hwords
    hcomments
  · rcases hcondensed.eq_of_isBlank c hc hblank with rfl | rfl
    · exact isSkip_of_mem_whitespace (by decide)
    · exact isSkip_of_mem_whitespace (by decide)
  · have hfront := hcondensed.dropWhile
    rwa [List.dropWhile_idempotent] at hfront

/-- **The normal form of a text is the same script**, if every comment up to the end of the line has
nothing but blanks behind its first line end, whichever line end that is: a text that is accepted is
accepted in its normal form too, and its script is the same up to offsets. -/
theorem parse_normalized {layerCount : Int} {terms : Notation} {g : Grammar} {text : String}
    {root : Script} {m m' : Memory} (hterms : Notation.default layerCount = .ok terms)
    (hgrammar : Grammar.ofNotation terms macros = .ok g) (hparse : g.parse text m = .ok root m')
    (hcomments : ∀ comment ∈ g.lexicon.comments text.toList, comment.1 = ['\n'] → OnOneLine comment.2) :
    ∃ root' m'', g.parse (String.ofList (Text.normalize text.toList)) m = .ok root' m'' ∧
      root'.unplaced = root.unplaced := by
  obtain ⟨n, h, rfl⟩ :=
    eq_builtIn hterms (fun name hname => (hnames name hname).ne_empty) hgrammar
  refine exists_parse_of_lexemes hparse ?_
  rw [String.toList_ofList]
  exact lexemes_normalize hnames (lexeme_ne_word_of_parse hparse) hcomments

omit hnames

/-- A text with a comment of which the normal form keeps the line end. -/
def commented : String := "R // turn\r\n\tU2 /* and\u2028back */ R'"

theorem parse_normalized_commented : ∃ terms g root m' root' m'',
    Notation.default 3 = .ok terms ∧ (∀ name ∈ turnMacros.keys, OneWord name) ∧
    Grammar.ofNotation terms turnMacros = .ok g ∧ g.parse commented {} = .ok root m' ∧
    (∀ comment ∈ g.lexicon.comments commented.toList, comment.1 = ['\n'] → OnOneLine comment.2) ∧
    String.ofList (Text.normalize commented.toList) = "R // turn\nU2 /* and\nback */ R'" ∧
    g.parse (String.ofList (Text.normalize commented.toList)) {} = .ok root' m'' ∧
    root'.unplaced = root.unplaced := by
  let g := builtIn 3 (by decide) .precircumfixed turnMacros
  have hnames : ∀ name ∈ turnMacros.keys, OneWord name := by
    intro name hname
    obtain rfl : name = "Turn" := by simpa [turnMacros, Table.keys] using hname
    exact ⟨by decide, List.all_iff_forall_prop.mp (by decide)⟩
  have hterms : Notation.default 3 = .ok (Notation.signed 3 (by decide) .precircumfixed) := rfl
  have hgrammar : Grammar.ofNotation (Notation.signed 3 (by decide) .precircumfixed) turnMacros =
      .ok g := ofNotation_builtIn fun name hname => (hnames name hname).ne_empty
  obtain ⟨hread, hcomments, hnormal⟩ : (outcome (g.parse commented {})).isOk = true ∧
      (∀ comment ∈ g.lexicon.comments commented.toList, comment.1 = ['\n'] → OnOneLine comment.2) ∧
      Text.normalize commented.toList = "R // turn\nU2 /* and\nback */ R'".toList := by
    decide +kernel
  obtain ⟨root, m', hparse⟩ := exists_eq_ok_of_isOk hread
  obtain ⟨root', m'', hparse', hsame⟩ := parse_normalized hnames hterms hgrammar hparse hcomments
  exact ⟨_, g, root, m', root', m'', hterms, hnames, hgrammar, hparse, hcomments,
    by rw [hnormal, String.ofList_toList], hparse', hsame⟩

/-- Behind a carriage return the comment ends in the normal form, but not in the text. -/
theorem normalized_comment_turns : ∃ terms g root m' root' m'',
    Notation.default 2 = .ok terms ∧ Grammar.ofNotation terms ∅ = .ok g ∧
    g.parse "R // a\rU" {} = .ok root m' ∧
    g.parse (String.ofList (Text.normalize "R // a\rU".toList)) {} = .ok root' m'' ∧
    root'.unplaced ≠ root.unplaced := by
  let g := builtIn 2 (Nat.le_refl 2) .precircumfixed ∅
  have hterms : Notation.default 2 = .ok (Notation.signed 2 (Nat.le_refl 2) .precircumfixed) := rfl
  have hgrammar : Grammar.ofNotation (Notation.signed 2 (Nat.le_refl 2) .precircumfixed) ∅ =
      .ok g := ofNotation_builtIn (by rintro name ⟨⟩)
  let size (text : String) : Option Nat :=
    (outcome (g.parse text {})).toOption.map fun s => s.unplaced.children.length
  obtain ⟨hread, hread', hsize⟩ : (outcome (g.parse "R // a\rU" {})).isOk = true ∧
      (outcome (g.parse (String.ofList (Text.normalize "R // a\rU".toList)) {})).isOk = true ∧
      size (String.ofList (Text.normalize "R // a\rU".toList)) ≠ size "R // a\rU" := by
    decide +kernel
  obtain ⟨root, m', hparse⟩ := exists_eq_ok_of_isOk hread
  obtain ⟨root', m'', hparse'⟩ := exists_eq_ok_of_isOk hread'
  refine ⟨_, g, root, m', root', m'', hterms, hgrammar, hparse, hparse', fun hsame => hsize ?_⟩
  simp only [size, hparse, hparse', outcome, Except.toOption, Option.map_some, hsame]

end CubeLang.Grammar
