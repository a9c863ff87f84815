import CubeLang.Proofs.Grammar.GroupedText
import CubeLang.Proofs.Grammar.SameLexemes
import CubeLang.Proofs.Token.Boundaries

/-!
# White space between tokens

No keyword of the built-in notation holds white space, and no name of a macro should. So white space
ends every token in front of it, and where a token starts or stops more of it changes no lexeme. Whether
the text is accepted or refused, it is parsed alike with it.
-/

set_option autoImplicit false

namespace CubeLang

/-- The name of a macro that can be told from what stands around it: it is not empty and has no white
space. -/
structure Unspaced (name : String) : Prop where
  ne_empty : name ≠ ""
  no_space : ∀ c ∈ name.toList, c ∉ Lexicon.whitespace

namespace Grammar

variable {n : Nat} {h : 2 ≤ n} {f : Fixity} {macros : Table String String}

/-- The grammar of the built-in notation for a layer count, with macros that have names. -/
theorem exists_builtIn {layerCount : Int} (hcount : 2 ≤ layerCount)
    (hnames : ∀ name ∈ macros.keys, name ≠ "") : ∃ (terms : Notation) (n : Nat) (h : 2 ≤ n),
      Notation.default layerCount = .ok terms ∧
        Grammar.ofNotation terms macros = .ok (builtIn n h .precircumfixed macros) := by
  refine ⟨_, layerCount.toNat, Int.toNat_le_toNat hcount, dif_pos hcount, ?_⟩
  rw [← signed_precircumfixed]
  exact ofNotation_builtIn hnames

/-- White space separates tokens. -/
theorem isSkip_of_mem_whitespace {c : Char} (hc : c ∈ Lexicon.whitespace) :
    (builtIn n h f macros).lexicon.isSkip c = true := by
  have hskip : ∀ c ∈ Lexicon.whitespace, Lexicon.base.isSkip c = true :=
    List.all_iff_forall_prop.mp (by decide)
  exact hskip c hc

/-- Every text is read to its end. -/
theorem tokensFrom_readable (position : Nat) (cs : List Char) :
    ((builtIn n h f macros).lexicon.tokensFrom position cs).2 = none :=
  Lexicon.ending_eq_none Lexicon.decimal_of_isDigit_base

variable (hnames : ∀ name ∈ macros.keys, Unspaced name)
include hnames

/-- No keyword holds white space. -/
theorem whitespace_notMem_of_lookup? {v : List Char} {e : Trie.Entry}
    (he : (builtIn n h f macros).lexicon.trie.lookup? v = some e) {c : Char}
    (hc : c ∈ Lexicon.whitespace) : c ∉ v := by
  have hwords : ∀ c ∈ Lexicon.whitespace, ¬(c.isAlphanum = true ∨ c = '-') :=
    List.all_iff_forall_prop.mp (by decide)
  have htokens : ∀ token ∈ Notation.defaultTokens.map Prod.snd,
      (token.toList.all fun c => c ∉ Lexicon.whitespace) = true := by decide
  intro hmem
  rcases exists_of_lookup? he hmem with hword | ⟨token, htoken, hmem⟩ | ⟨name, hname, hmem⟩
  · exact hwords c hc hword
  · exact List.all_iff_forall_prop.mp (htokens token htoken) c hmem hc
  · exact (hnames name hname).no_space c hmem hc

/-- White space where a token starts or stops, or at the end of a text, leaves all lexemes as they
were. -/
theorem lexemes_insert_whitespace {front blanks back : List Char}
    (hblanks : ∀ c ∈ blanks, c ∈ Lexicon.whitespace)
    (hplace : (builtIn n h f macros).lexicon.AtToken front back ∨ back = []) :
    ((builtIn n h f macros).lexicon.tokens (front ++ (blanks ++ back))).map Token.lexeme =
      ((builtIn n h f macros).lexicon.tokens (front ++ back)).map Token.lexeme := by
  have hskip : ∀ c ∈ blanks, (builtIn n h f macros).lexicon.isSkip c = true :=
    fun c hc => isSkip_of_mem_whitespace (hblanks c hc)
  have habsent : ∀ c ∈ blanks, ∀ v e,
      (builtIn n h f macros).lexicon.trie.lookup? v = some e → c ∉ v :=
    fun c hc v e he => whitespace_notMem_of_lookup? hnames he (hblanks c hc)
  rcases hplace with htoken | rfl
  · exact Lexicon.lexemes_insert_of_atToken hskip habsent htoken
  · rw [List.append_nil, List.append_nil]
    exact Lexicon.lexemes_append hskip habsent tokensFrom_readable

/-- **White space between tokens is not seen.** Put where a token starts or stops, or at the end of the
text, it leaves the kinds, texts and values of all tokens as they were, and the text is parsed alike:
as the same script up to offsets, or with the same message. -/
theorem blanks_transparent {layerCount : Int} (hcount : 2 ≤ layerCount) : ∃ terms g,
    Notation.default layerCount = .ok terms ∧ Grammar.ofNotation terms macros = .ok g ∧
    ∀ front blanks back : String, (∀ c ∈ blanks.toList, c ∈ Lexicon.whitespace) →
      g.lexicon.AtToken front.toList back.toList ∨ back = "" →
      (g.lexicon.tokens (front ++ blanks ++ back).toList).map Token.lexeme =
          (g.lexicon.tokens (front ++ back).toList).map Token.lexeme ∧
        ∀ m : Memory, ParsedAlike (outcome (g.parse (front ++ back) m))
          (outcome (g.parse (front ++ blanks ++ back) m)) := by
  obtain ⟨terms, n, h, hterms, hgrammar⟩ :=
    exists_builtIn hcount fun name hname => (hnames name hname).ne_empty
  refine ⟨terms, _, hterms, hgrammar, fun front blanks back hblanks hplace => ?_⟩
  have hlexemes := lexemes_insert_whitespace (n := n) (h := h) (f := .precircumfixed) hnames hblanks
    (hplace.imp_right fun hback => by rw [hback]; rfl)
  rw [← List.append_assoc, ← String.toList_append, ← String.toList_append, ← String.toList_append]
    at hlexemes
  exact ⟨hlexemes, parse_alike hlexemes.symm⟩

omit hnames

theorem blanks_transparent_turn : (2 : Int) ≤ 3 ∧ (∀ name ∈ turnMacros.keys, Unspaced name) ∧
    ∃ terms g, Notation.default 3 = .ok terms ∧ Grammar.ofNotation terms turnMacros = .ok g ∧
      (∀ c ∈ "\n\t".toList, c ∈ Lexicon.whitespace) ∧
      g.lexicon.AtToken "Turn".toList "2//a".toList ∧
      (g.lexicon.tokens "Turn\n\t2//a".toList).map Token.lexeme =
        (g.lexicon.tokens "Turn2//a".toList).map Token.lexeme ∧
      ParsedAlike (outcome (g.parse "Turn2//a" {})) (outcome (g.parse "Turn\n\t2//a" {})) := by
  have hnames : ∀ name ∈ turnMacros.keys, Unspaced name := by
    intro name hname
    obtain rfl : name = "Turn" := by simpa [turnMacros, Table.keys] using hname
    exact ⟨by decide, List.all_iff_forall_prop.mp (by decide)⟩
  obtain ⟨terms, g, hterms, hgrammar, hblanks⟩ :=
    blanks_transparent hnames (by decide : (2 : Int) ≤ 3)
  have hg : g = builtIn 3 (by decide) .precircumfixed turnMacros := by
    obtain rfl : terms = Notation.signed 3 (by decide) .precircumfixed :=
      (Except.ok.inj hterms).symm
    rw [ofNotation_builtIn fun name hname => (hnames name hname).ne_empty] at hgrammar
    exact (Except.ok.inj hgrammar).symm
  subst hg
  have hspace : ∀ c ∈ "\n\t".toList, c ∈ Lexicon.whitespace :=
    List.all_iff_forall_prop.mp (by decide)
  have hplace : (builtIn 3 (by decide) .precircumfixed turnMacros).lexicon.AtToken
      "Turn".toList "2//a".toList := by decide +kernel
  obtain ⟨hlexemes, hparse⟩ := hblanks "Turn" "\n\t" "2//a" hspace (Or.inl hplace)
  exact ⟨by decide, hnames, terms, _, hterms, hgrammar, hspace, hplace, hlexemes, hparse {}⟩

end Grammar

end CubeLang
