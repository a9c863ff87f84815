import CubeLang.Proofs.Grammar.Grouping
import CubeLang.Proofs.Grammar.TextReading
import CubeLang.Proofs.Token.Continuation

/-!
# Texts in brackets

A text that is parsed by the built-in notation is parsed between brackets too, as a grouping of the
same scripts. The closing bracket stands on a line of its own, since the text may end in a comment.
The exception is a text that begins with an opening bracket: two of them in a row are taken for a
cycle of parts, which has no brackets inside.
-/

set_option autoImplicit false

namespace CubeLang.Grammar

variable {n : Nat} {h : 2 ≤ n} {macros : Table String String} {m m' : Memory}

/-- Where a macro stands in a text is not seen in its body. -/
theorem reading_expandsAnywhere (g : Grammar) (available : List String) (length : Nat) :
    (g.reading available length).ExpandsAnywhere := by
  intro f t m m' body h
  show g.expansion available (t.relocate f) m = _
  have h : g.expansion available t m = .ok body m' := h
  unfold expansion at h ⊢
  rw [Token.text_relocate]
  split at h
  · rename_i hmem
    rw [if_pos hmem]
    split at h
    · exact h
    · split at h
      · contradiction
      · exact h
  · contradiction

/-- The tokens of a text of some length, between brackets of which the second one stands on the next
line. -/
def inBrackets (length : Nat) (ts : List Token) : List Token :=
  ⟨.keyword, "(", 0, 1⟩ :: relocated (· + 1) [⟨.keyword, ")", length + 2, length + 3⟩] ts

section Tokens

variable {f : Fixity} (hnames : ∀ name ∈ macros.keys, Groupable name)
include hnames

/-- A text without an open block comment keeps its tokens in front of the end of a line. -/
theorem endsAt_newline {cs : List Char}
    (hcomment : (builtIn n h f macros).lexicon.openComment? cs ≠ some ['*', '/'])
    (tail : List Char) : (builtIn n h f macros).lexicon.EndsAt '\n' tail cs := by
  have hskip : (builtIn n h f macros).lexicon.isSkip '\n' = true := by
    show Lexicon.base.isSkip '\n' = true
    decide
  have hopen : ∀ close ∈ (builtIn n h f macros).lexicon.openComment? cs,
      close = ['\n'] ∨ tail = [] := by
    intro close hclose
    obtain ⟨opening, hlookup⟩ := Lexicon.exists_lookup?_of_openComment? hclose
    rcases close_of_lookup? hlookup with rfl | rfl
    · exact absurd hclose hcomment
    · exact Or.inl rfl
  exact Lexicon.endsAt_of_openComment? hskip
    (fun v e he => newline_notMem_of_lookup? hnames he) hopen

/-- The tokens of a text in brackets are those of the text between two more. -/
theorem tokens_grouped {cs : List Char}
    (hcomment : (builtIn n h f macros).lexicon.openComment? cs ≠ some ['*', '/']) :
    (builtIn n h f macros).lexicon.tokens ('(' :: (cs ++ ['\n', ')'])) =
      inBrackets cs.length ((builtIn n h f macros).lexicon.tokens cs) := by
  have hinside := Lexicon.tokensFrom_add (builtIn n h f macros).lexicon 0 1 cs
  have hends := endsAt_newline hnames hcomment [')'] 1
    (Lexicon.ending_eq_none Lexicon.decimal_of_isDigit_base)
  have hclosing : 1 + cs.length + 1 = cs.length + 2 := by omega
  rw [hclosing, tokensFrom_closing] at hends
  unfold Lexicon.tokens
  rw [tokensFrom_opening hnames, hends, hinside]
  rfl

end Tokens

/-- What begins a text that is not to be taken for a cycle of parts in brackets. -/
def cycleParts : List Symbol :=
  Symbol.faces ++ Symbol.signs ++ [.permutationDelimiter, .permutationEnd]

/-- Of the parts of cycles only the opening bracket is left. -/
theorem eq_permutationBegin_of_isPartOf {s : Symbol} (hpart : s.isPartOf .permutation = true)
    (hs : s ∉ cycleParts) : s = .permutationBegin := by
  revert hpart hs
  cases s <;> decide

variable {layerCount : Int} {terms : Notation} {g : Grammar} {text : String} {root : Script}
variable {first : Token}

theorem ofNotation_default (hterms : Notation.default layerCount = .ok terms)
    (hnames : ∀ name ∈ macros.keys, Groupable name)
    (hgrammar : Grammar.ofNotation terms macros = .ok g) :
    ∃ (n : Nat) (h : 2 ≤ n), g = builtIn n h .precircumfixed macros :=
  eq_builtIn hterms (fun name hname => (hnames name hname).ne_empty) hgrammar

theorem toList_grouped (text : String) :
    ("(" ++ text ++ "\n)").toList = '(' :: (text.toList ++ ['\n', ')']) := by
  rw [String.toList_append, String.toList_append]
  rfl

section BuiltIn

variable (hnames : ∀ name ∈ macros.keys, Groupable name) {rest : List Token}
variable (hcomment : (builtIn n h .precircumfixed macros).lexicon.openComment? text.toList ≠
  some ['*', '/'])
variable (htokens : (builtIn n h .precircumfixed macros).lexicon.tokens text.toList = first :: rest)
include hnames hcomment htokens

/-- Parsing a text in brackets is reading the tokens of the text between two more. -/
theorem parse_in_brackets (m : Memory) :
    (builtIn n h .precircumfixed macros).parse ("(" ++ text ++ "\n)") m =
      match ((builtIn n h .precircumfixed macros).reading macros.keys
          (text.toList.length + 3)).readAll (inBrackets text.toList.length (first :: rest)) m with
      | .ok scripts m' => .ok (.sequence ⟨0, text.toList.length + 3⟩ scripts) m'
      | .error e m' => .error e (m'.report (.parseFailed e)) := by
  have hlength : ('(' :: (text.toList ++ ['\n', ')'])).length = text.toList.length + 3 := by simp
  rw [parse, parseWith_eq, toList_grouped, tokens_grouped hnames hcomment, hlength, htokens]
  rfl

/-- A text that begins with a bracket which may open a cycle is refused in brackets. -/
theorem parse_in_brackets_of_begin (m : Memory)
    (hbegin : (builtIn n h .precircumfixed macros).isA .permutationBegin first = true) :
    (builtIn n h .precircumfixed macros).parse ("(" ++ text ++ "\n)") m =
      let e := ParseError.ofToken .faceMissing (first.relocate (· + 1))
      .error e (m.report (.parseFailed e)) := by
  have hbracket : ∀ b ∈ Notation.defaultTokens, b.1 = .permutationBegin → b.2 = "(" := by decide
  have hr : ((builtIn n h .precircumfixed macros).reading macros.keys
      (text.toList.length + 3)).grammar = builtIn n h .precircumfixed macros := rfl
  obtain ⟨hkind, hmem⟩ := (Reading.isA_iff hr (by decide)).mp hbegin
  have hkind : (first.relocate (· + 1)).kind = .keyword := hkind
  have htext : (first.relocate (· + 1)).text = "(" := hbracket _ (List.mem_filter.mp hmem).1 rfl
  rw [parse_in_brackets hnames hcomment htokens, inBrackets, relocated_cons,
    Reading.readAll_of_brackets hr rfl rfl hnames hkind htext]

/-- A text that begins with no part of cycles is parsed as a grouping in brackets. -/
theorem parse_in_brackets_of_grouping {scripts : List Script}
    (hcycle : ((builtIn n h .precircumfixed macros).symbols first).any
      (fun s => s.isPartOf .permutation) = false)
    (hread : ((builtIn n h .precircumfixed macros).reading macros.keys text.toList.length).readAll
      (first :: rest) m = .ok scripts m') :
    (builtIn n h .precircumfixed macros).parse ("(" ++ text ++ "\n)") m =
      let span : Span := ⟨0, text.toList.length + 3⟩
      .ok (.sequence span [.grouping span (scripts.map (Script.relocate (· + 1)))]) m' := by
  have hr : ((builtIn n h .precircumfixed macros).reading macros.keys
      text.toList.length).grammar = builtIn n h .precircumfixed macros := rfl
  have hmove : Monotone fun k : Nat => k + 1 := fun _ _ => Nat.succ_le_succ
  have hgrouping : ((builtIn n h .precircumfixed macros).reading macros.keys
      (text.toList.length + 3)).readAll (inBrackets text.toList.length (first :: rest)) m =
        .ok [.grouping ⟨0, text.toList.length + 3⟩ (scripts.map (Script.relocate (· + 1)))] m' :=
    Reading.readAll_grouped hr rfl rfl hnames hmove (text.toList.length + 3)
      (reading_expandsAnywhere _ _ _) rfl rfl (List.cons_ne_nil _ _) hcycle hread
  rw [parse_in_brackets hnames hcomment htokens, hgrouping]

end BuiltIn

/-- A text that is parsed, has tokens, leaves no block comment open and does not begin with a part
of cycles is parsed between brackets too: as one grouping of the same scripts, moved by the bracket.
Only if it begins with a bracket that may open a cycle, it is refused there. -/
theorem parse_grouped (hterms : Notation.default layerCount = .ok terms)
    (hnames : ∀ name ∈ macros.keys, Groupable name)
    (hgrammar : Grammar.ofNotation terms macros = .ok g) (hparse : g.parse text m = .ok root m')
    (hcomment : g.lexicon.openComment? text.toList ≠ some ['*', '/'])
    (hfirst : (g.lexicon.tokens text.toList).head? = some first)
    (hcycle : ∀ s ∈ g.symbols first, s ∉ cycleParts) :
    g.parse ("(" ++ text ++ "\n)") m =
      if g.isA .permutationBegin first then
        let e := ParseError.ofToken .faceMissing (first.relocate (· + 1))
        .error e (m.report (.parseFailed e))
      else
        let span : Span := ⟨0, text.toList.length + 3⟩
        .ok (.sequence span [.grouping span (root.children.map (Script.relocate (· + 1)))]) m' := by
  obtain ⟨n, h, rfl⟩ := ofNotation_default hterms hnames hgrammar
  obtain ⟨scripts, rfl, hread⟩ := exists_readAll_of_parse hparse
  obtain ⟨rest, htokens⟩ := List.head?_eq_some_iff.mp hfirst
  by_cases hbegin : (builtIn n h .precircumfixed macros).isA .permutationBegin first = true
  · rw [if_pos hbegin]
    exact parse_in_brackets_of_begin hnames hcomment htokens m hbegin
  · have hgrouping : ((builtIn n h .precircumfixed macros).symbols first).any
        (fun s => s.isPartOf .permutation) = false := by
      rw [List.any_eq_false]
      intro s hs hpart
      obtain rfl := eq_permutationBegin_of_isPartOf hpart (hcycle s hs)
      exact hbegin (List.contains_iff_mem.mpr hs)
    rw [htokens] at hread
    rw [if_neg hbegin]
    exact parse_in_brackets_of_grouping hnames hcomment htokens hgrouping hread

/-- A macro to be used in a text. -/
def turnMacros : Table String String := ⟨[("Turn", "U R'")]⟩

theorem parse_grouped_turnTwice : ∃ terms g root m' first,
    Notation.default 2 = .ok terms ∧ (∀ name ∈ turnMacros.keys, Groupable name) ∧
    Grammar.ofNotation terms turnMacros = .ok g ∧
    g.parse "Turn2 // twice" {} = .ok root m' ∧
    g.lexicon.openComment? "Turn2 // twice".toList ≠ some ['*', '/'] ∧
    (g.lexicon.tokens "Turn2 // twice".toList).head? = some first ∧
    (∀ s ∈ g.symbols first, s ∉ cycleParts) ∧
    g.parse "(Turn2 // twice\n)" {} =
      .ok (.sequence ⟨0, 17⟩ [.grouping ⟨0, 17⟩ (root.children.map (Script.relocate (· + 1)))])
        m' := by
  let g := builtIn 2 (Nat.le_refl 2) .precircumfixed turnMacros
  let first : Token := ⟨.keyword, "Turn", 0, 4⟩
  have hterms : Notation.default 2 = .ok (Notation.signed 2 (Nat.le_refl 2) .precircumfixed) := rfl
  have hnames : ∀ name ∈ turnMacros.keys, Groupable name := by
    intro name hname
    obtain rfl : name = "Turn" := by simpa [turnMacros, Table.keys] using hname
    exact ⟨by decide, by decide, by decide, by decide⟩
  have hgrammar : Grammar.ofNotation (Notation.signed 2 (Nat.le_refl 2) .precircumfixed)
      turnMacros = .ok g := ofNotation_builtIn fun name hname => (hnames name hname).ne_empty
  obtain ⟨hread, hcomment, hfirst, hcycle, hbegin⟩ :
      (outcome (g.parse "Turn2 // twice" {})).isOk = true ∧
        g.lexicon.openComment? "Turn2 // twice".toList ≠ some ['*', '/'] ∧
        (g.lexicon.tokens "Turn2 // twice".toList).head? = some first ∧
        (∀ s ∈ g.symbols first, s ∉ cycleParts) ∧ g.isA .permutationBegin first = false := by
    decide +kernel
  obtain ⟨root, m', hparse⟩ := exists_eq_ok_of_isOk hread
  have hgrouped := parse_grouped hterms hnames hgrammar hparse hcomment hfirst hcycle
  rw [hbegin] at hgrouped
  exact ⟨_, g, root, m', first, hterms, hnames, hgrammar, hparse, hcomment, hfirst, hcycle,
    hgrouped⟩

theorem bracketed_turn_refused : ∃ terms g root m' m'' first e,
    Notation.default 2 = .ok terms ∧ Grammar.ofNotation terms ∅ = .ok g ∧
    g.parse "(R)" {} = .ok root m' ∧
    g.lexicon.openComment? "(R)".toList ≠ some ['*', '/'] ∧
    (g.lexicon.tokens "(R)".toList).head? = some first ∧
    (∀ s ∈ g.symbols first, s ∉ cycleParts) ∧ g.parse "((R)\n)" {} = .error e m'' := by
  let g := builtIn 2 (Nat.le_refl 2) .precircumfixed ∅
  let first : Token := ⟨.keyword, "(", 0, 1⟩
  have hterms : Notation.default 2 = .ok (Notation.signed 2 (Nat.le_refl 2) .precircumfixed) := rfl
  have hgrammar : Grammar.ofNotation (Notation.signed 2 (Nat.le_refl 2) .precircumfixed) ∅ =
      .ok g := ofNotation_builtIn (by rintro name ⟨⟩)
  obtain ⟨hread, hcomment, hfirst, hcycle, hrefused⟩ :
      (outcome (g.parse "(R)" {})).isOk = true ∧
        g.lexicon.openComment? "(R)".toList ≠ some ['*', '/'] ∧
        (g.lexicon.tokens "(R)".toList).head? = some first ∧
        (∀ s ∈ g.symbols first, s ∉ cycleParts) ∧
        (outcome (g.parse "((R)\n)" {})).isOk = false := by
    decide +kernel
  obtain ⟨root, m', hparse⟩ := exists_eq_ok_of_isOk hread
  obtain ⟨e, m'', hgrouped⟩ := exists_eq_error_of_isOk hrefused
  exact ⟨_, g, root, m', m'', first, e, hterms, hgrammar, hparse, hcomment, hfirst, hcycle,
    hgrouped⟩

end CubeLang.Grammar
