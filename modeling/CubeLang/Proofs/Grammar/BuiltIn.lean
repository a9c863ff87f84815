import CubeLang.Proofs.Grammar.Lexicon
import CubeLang.Proofs.Notation.Default

/-!
# The built-in notation with macros

The grammar of the built-in notation for any macros with names, whose signs of cycles stand in some
place. Its keywords are the tokens of the notation and the names of the macros, which say what may
stand in a text next to its brackets.
-/

set_option autoImplicit false

namespace CubeLang

namespace Lexicon

/-- The lexicon of a grammar before its keywords. -/
def base : Lexicon := ({} : Lexicon).skipWhitespace.addNumbers

theorem rules_base : base.rules =
    ⟨48, 57, .digit⟩ :: whitespace.reverse.map fun c => ⟨c.toNat, c.toNat, .skip⟩ := rfl

theorem role?_base (c : Char) : base.role? c =
    if c.isDigit then some .digit else if c ∈ whitespace then some .skip else none := by
  have hdigit : (decide (48 ≤ c.toNat) && decide (c.toNat ≤ 57)) = c.isDigit := by
    rw [Bool.eq_iff_iff, Char.isDigit_iff_toNat]
    simp
  unfold role?
  rw [rules_base, List.find?_cons]
  simp only [hdigit]
  cases c.isDigit with
  | true => rfl
  | false =>
    rw [List.find?_map, Option.map_map]
    have hrule : ((fun r : Rule => decide (r.first ≤ c.toNat) && decide (c.toNat ≤ r.last)) ∘
        fun c : Char => ⟨c.toNat, c.toNat, .skip⟩) = fun d : Char => d = c := by
      funext d
      simp only [Function.comp_apply]
      rw [Bool.eq_iff_iff]
      simp only [Bool.and_eq_true, decide_eq_true_eq]
      rw [← Char.toNat_inj]
      omega
    rw [hrule]
    cases hfind : whitespace.reverse.find? fun d => d = c with
    | none =>
      have hc : c ∉ whitespace := by
        intro hmem
        have hne := List.find?_eq_none.mp hfind c (List.mem_reverse.mpr hmem)
        simp at hne
      simp [hc]
    | some d =>
      obtain rfl : d = c := by simpa using List.find?_some hfind
      have hd : d ∈ whitespace := List.mem_reverse.mp (List.mem_of_find?_eq_some hfind)
      simp [hd]

theorem isDigit_base (c : Char) : base.isDigit c = c.isDigit := by
  unfold isDigit
  rw [role?_base]
  cases c.isDigit
  · simp only [Bool.false_eq_true, if_false]
    split <;> simp
  · simp

theorem decimal_of_isDigit_base (c : Char) (h : base.isDigit c = true) :
    Text.Integer.Decimal c := by
  rw [isDigit_base] at h
  exact Text.Integer.decimal_of_isDigit h

theorem isSkip_base_of_isUpper {c : Char} (h : c.isUpper = true) : base.isSkip c = false := by
  have hwhitespace : ∀ c ∈ whitespace, ¬c.isUpper = true := List.all_iff_forall_prop.mp (by decide)
  have hc : c ∉ whitespace := fun hmem => hwhitespace c hmem h
  unfold isSkip
  rw [role?_base, if_neg hc]
  split <;> rfl

end Lexicon

/-- The name of a macro that can be taken neither for the bracket in front of a script, nor for a mark
that closes or parts scripts, nor for what stands on two lines. -/
structure Groupable (name : String) : Prop where
  ne_empty : name ≠ ""
  one_line : '\n' ∉ name.toList
  head_ne : name.toList.head? ≠ some '('
  not_mark : name ∉ [")", "]", ","]

namespace Grammar

/-- The grammar of the built-in notation, for signs of cycles in some place, with macros. -/
def builtIn (n : Nat) (h : 2 ≤ n) (f : Fixity) (macros : Table String String) : Grammar where
  terms := Notation.signed n h f
  macros := macros
  lexicon :=
    { Lexicon.base with trie := Trie.addAll (entries (Notation.signed n h f) macros) Trie.empty }

variable {n : Nat} {h : 2 ≤ n} {f : Fixity} {macros : Table String String}

theorem tokensFor_comments : (Notation.signed n h f).tokensFor .blockCommentBegin = ["/*"] ∧
    (Notation.signed n h f).token? .blockCommentEnd = some "*/" ∧
    (Notation.signed n h f).tokensFor .lineCommentBegin = ["//"] := by
  unfold Notation.token?
  rw [Notation.tokensFor_signed h (by decide), Notation.tokensFor_signed h (by decide),
    Notation.tokensFor_signed h (by decide)]
  cases f <;> decide

theorem entries_builtIn : entries (Notation.signed n h f) macros =
    (Notation.ofLayerCount n h).tokens.map (fun token => (.keyword, token.toList)) ++
      macros.keys.map (fun name => (.keyword, name.toList)) ++
      [(.comment ['*', '/'], ['/', '*']), (.comment ['\n'], ['/', '/'])] := by
  obtain ⟨hblock, hend, hline⟩ := @tokensFor_comments n h f
  unfold entries
  rw [hblock, hend, hline, Notation.tokens_signed]
  simp only [List.append_assoc]
  rfl

/-- What the lexicon knows is a token of the notation, the name of a macro or the opening of a
comment. -/
theorem mem_entries_builtIn {e : Trie.Entry × List Char}
    (he : e ∈ entries (Notation.signed n h f) macros) :
    (∃ text, (text ∈ (Notation.ofLayerCount n h).tokens ∨ text ∈ macros.keys) ∧
        e = (.keyword, text.toList)) ∨
      e ∈ [(.comment ['*', '/'], ['/', '*']), (.comment ['\n'], ['/', '/'])] := by
  rw [entries_builtIn, List.append_assoc] at he
  rcases List.mem_append.mp he with he | he
  · obtain ⟨text, htext, rfl⟩ := List.mem_map.mp he
    exact Or.inl ⟨text, Or.inl htext, rfl⟩
  · rcases List.mem_append.mp he with he | he
    · obtain ⟨text, htext, rfl⟩ := List.mem_map.mp he
      exact Or.inl ⟨text, Or.inr htext, rfl⟩
    · exact Or.inr he

/-- The grammar is that of the notation with further macros. -/
theorem ofNotation_builtIn (hnames : ∀ name ∈ macros.keys, name ≠ "") :
    Grammar.ofNotation (Notation.signed n h f) macros = .ok (builtIn n h f macros) := by
  obtain ⟨hblock, -, hline⟩ := @tokensFor_comments n h f
  have hmacros : macros.putAll (Notation.signed n h f).macros.entries = macros := by
    rw [Notation.macros_signed]
    rfl
  have htokens : ∀ token ∈ (Notation.signed n h f).tokens, token ≠ "" := by
    rintro token htoken rfl
    rw [Notation.tokens_signed, Notation.mem_tokens_ofLayerCount h (by decide)] at htoken
    exact absurd htoken (by decide)
  have hrun : (lexiconOf (Notation.signed n h f) macros).run Lexicon.base =
      .ok () (builtIn n h f macros).lexicon := by
    apply lexiconOf_run htokens hnames
    · rw [hblock]
      decide
    · rw [hline]
      decide
  unfold ofNotation
  simp only [hmacros]
  have hbase : ({} : Lexicon).skipWhitespace.addNumbers = Lexicon.base := rfl
  rw [hbase, hrun]
  rfl

/-- The built-in notation of a layer count has the signs of cycles behind their opening brackets. -/
theorem signed_precircumfixed : Notation.signed n h .precircumfixed = Notation.ofLayerCount n h :=
  rfl

/-- The grammar of the built-in notation is the one whose signs stand behind the opening brackets. -/
theorem eq_builtIn {layerCount : Int} {terms : Notation} {g : Grammar}
    (hterms : Notation.default layerCount = .ok terms) (hnames : ∀ name ∈ macros.keys, name ≠ "")
    (hgrammar : Grammar.ofNotation terms macros = .ok g) :
    ∃ (n : Nat) (h : 2 ≤ n), g = builtIn n h .precircumfixed macros := by
  unfold Notation.default at hterms
  split at hterms
  · obtain rfl := Except.ok.inj hterms
    rw [← signed_precircumfixed, ofNotation_builtIn hnames] at hgrammar
    exact ⟨_, _, (Except.ok.inj hgrammar).symm⟩
  · contradiction

/-! ## Keywords -/

theorem mem_entries_of_lookup? {v : List Char} {e : Trie.Entry}
    (he : (builtIn n h f macros).lexicon.trie.lookup? v = some e) :
    (e, v) ∈ entries (Notation.signed n h f) macros := by
  have he : (Trie.addAll (entries (Notation.signed n h f) macros) Trie.empty).lookup? v = some e :=
    he
  rcases Trie.mem_of_lookup?_addAll he with hmem | hnone
  · exact hmem
  · rw [Trie.lookup?_empty] at hnone
    contradiction

/-- Comments end at their closing token or at the end of the line. -/
theorem close_of_lookup? {opening close : List Char}
    (he : (builtIn n h f macros).lexicon.trie.lookup? opening = some (.comment close)) :
    close = ['*', '/'] ∨ close = ['\n'] := by
  rcases mem_entries_builtIn (mem_entries_of_lookup? he) with ⟨text, -, heq⟩ | hmem
  · cases heq
  · simp only [List.mem_cons, Prod.mk.injEq, Trie.Entry.comment.injEq, List.not_mem_nil,
      or_false] at hmem
    exact hmem.imp And.left And.left

/-- Every token of the notation that opens no comment is a keyword. -/
theorem lookup?_token {w : String} (hw : w ∈ (Notation.ofLayerCount n h).tokens)
    (hcomment : w ≠ "/*" ∧ w ≠ "//") :
    (builtIn n h f macros).lexicon.trie.lookup? w.toList = some .keyword := by
  apply Trie.lookup?_addAll_keyword
  · rw [entries_builtIn, List.append_assoc]
    exact List.mem_append_left _ (List.mem_map.mpr ⟨w, hw, rfl⟩)
  · intro e he
    rcases mem_entries_builtIn he with ⟨text, -, heq⟩ | he
    · exact (Prod.mk.inj heq).1
    · obtain ⟨hblock, hline⟩ := hcomment
      simp only [List.mem_cons, Prod.mk.injEq, List.not_mem_nil, or_false] at he
      rcases he with ⟨-, he⟩ | ⟨-, he⟩
      · exact absurd (String.toList_injective he) hblock
      · exact absurd (String.toList_injective he) hline
  · intro e he
    simp at he

theorem lookup?_keyword {w : String} (hw : w ∈ Notation.defaultTokens.map Prod.snd)
    (hcapital : ¬Notation.Capital w) (hcomment : w ≠ "/*" ∧ w ≠ "//") :
    (builtIn n h f macros).lexicon.trie.lookup? w.toList = some .keyword :=
  lookup?_token ((Notation.mem_tokens_ofLayerCount h hcapital).mpr hw) hcomment

/-- A keyword or the opening of a comment is the token of a move, another token of the notation, or the
name of a macro. -/
theorem exists_text_of_lookup? {v : List Char} {e : Trie.Entry}
    (he : (builtIn n h f macros).lexicon.trie.lookup? v = some e) : ∃ text, v = text.toList ∧
      ((∃ move ∈ Notation.defaultMoves n, move.1 = text) ∨
        text ∈ Notation.defaultTokens.map Prod.snd ∨ text ∈ macros.keys) := by
  have hcomments : ∀ e ∈ [(Trie.Entry.comment ['*', '/'], ['/', '*']), (.comment ['\n'], ['/', '/'])],
      ∃ token ∈ Notation.defaultTokens.map Prod.snd, e.2 = token.toList := by decide
  rcases mem_entries_builtIn (mem_entries_of_lookup? he) with ⟨text, htext, heq⟩ | he
  · refine ⟨text, (Prod.mk.inj heq).2, ?_⟩
    rcases htext with htoken | hname
    · rcases List.mem_append.mp htoken with htoken | hmove
      · exact Or.inr (Or.inl (List.mem_eraseDups.mp htoken))
      · exact Or.inl (List.mem_map.mp hmove)
    · exact Or.inr (Or.inr hname)
  · obtain ⟨token, htoken, hv⟩ := hcomments _ he
    exact ⟨token, hv, Or.inr (Or.inl htoken)⟩

/-- So its characters are letters, digits and dashes, or those of such a token or name. -/
theorem exists_of_lookup? {v : List Char} {e : Trie.Entry}
    (he : (builtIn n h f macros).lexicon.trie.lookup? v = some e) {c : Char} (hc : c ∈ v) :
    (c.isAlphanum = true ∨ c = '-') ∨ (∃ token ∈ Notation.defaultTokens.map Prod.snd, c ∈ token.toList) ∨
      ∃ name ∈ macros.keys, c ∈ name.toList := by
  obtain ⟨text, rfl, ⟨move, hmove, rfl⟩ | htoken | hname⟩ := exists_text_of_lookup? he
  · exact Or.inl (Notation.wordlike_of_mem_defaultMoves hmove c hc)
  · exact Or.inr (Or.inl ⟨text, htoken, hc⟩)
  · exact Or.inr (Or.inr ⟨text, hname, hc⟩)

/-! ## Brackets around a text -/

section

variable (hnames : ∀ name ∈ macros.keys, Groupable name)
include hnames

/-- No keyword stands on two lines. -/
theorem newline_notMem_of_lookup? {v : List Char} {e : Trie.Entry}
    (he : (builtIn n h f macros).lexicon.trie.lookup? v = some e) : '\n' ∉ v := by
  have htokens : ∀ token ∈ Notation.defaultTokens.map Prod.snd, '\n' ∉ token.toList := by decide
  intro hc
  rcases exists_of_lookup? he hc with hword | ⟨token, htoken, hc⟩ | ⟨name, hname, hc⟩
  · revert hword
    decide
  · exact htokens token htoken hc
  · exact (hnames name hname).one_line hc

/-- No keyword begins with an opening bracket but the bracket itself. -/
theorem eq_nil_of_lookup?_opening {cs : List Char} {e : Trie.Entry}
    (he : (builtIn n h f macros).lexicon.trie.lookup? ('(' :: cs) = some e) : cs = [] := by
  have htokens : ∀ token ∈ Notation.defaultTokens.map Prod.snd,
      token.toList.head? = some '(' → token.toList = ['('] := by decide
  rcases mem_entries_builtIn (mem_entries_of_lookup? he) with ⟨text, htext, heq⟩ | he
  · have hcs : '(' :: cs = text.toList := (Prod.mk.inj heq).2
    have hhead : text.toList.head? = some '(' := by rw [← hcs, List.head?_cons]
    rcases htext with htoken | hname
    · have hcapital : ¬Notation.Capital text := by
        rw [Notation.Capital, hhead]
        decide
      have htoken := htokens text ((Notation.mem_tokens_ofLayerCount h hcapital).mp htoken) hhead
      exact (List.cons.inj (hcs.trans htoken)).2
    · exact absurd hhead (hnames text hname).head_ne
  · simp at he

/-- The text behind an opening bracket is read by itself. -/
theorem tokensFrom_opening (cs : List Char) :
    (builtIn n h f macros).lexicon.tokensFrom 0 ('(' :: cs) =
      (⟨.keyword, "(", 0, 1⟩ :: ((builtIn n h f macros).lexicon.tokensFrom 1 cs).1,
        ((builtIn n h f macros).lexicon.tokensFrom 1 cs).2) := by
  have hfound : (builtIn n h f macros).lexicon.trie.lookup? ['('] = some .keyword :=
    lookup?_keyword (w := "(") (by decide) (by decide) (by decide)
  have hlongest : (builtIn n h f macros).lexicon.trie.longest? ('(' :: cs) = some (.keyword, 1) := by
    refine Trie.longest?_eq_some (k := 1) (by decide) (by simp) hfound ?_
    intro j hj hle
    obtain ⟨j, rfl⟩ := Nat.exists_eq_succ_of_ne_zero (Nat.ne_of_gt (Nat.lt_trans Nat.zero_lt_one hj))
    cases hlookup : (builtIn n h f macros).lexicon.trie.lookup? (('(' :: cs).take (j + 1)) with
    | none => rfl
    | some e =>
      have hnil := eq_nil_of_lookup?_opening hnames hlookup
      rw [List.take_eq_nil_iff] at hnil
      rcases hnil with rfl | rfl
      · omega
      · rw [List.length_singleton] at hle
        omega
  have hskip : (builtIn n h f macros).lexicon.isSkip '(' = false := by
    show Lexicon.base.isSkip '(' = false
    decide
  rw [Lexicon.tokensFrom_eq, Lexicon.scan_keyword 0 hskip hlongest]
  rfl

omit hnames in
theorem tokensFrom_closing (position : Nat) :
    (builtIn n h f macros).lexicon.tokensFrom position [')'] =
      ([⟨.keyword, ")", position, position + 1⟩], none) := by
  have hfound : (builtIn n h f macros).lexicon.trie.lookup? [')'] = some .keyword :=
    lookup?_keyword (w := ")") (by decide) (by decide) (by decide)
  have hlongest : (builtIn n h f macros).lexicon.trie.longest? [')'] = some (.keyword, 1) := by
    refine Trie.longest?_eq_some (k := 1) (by decide) (by decide) hfound ?_
    intro j hj hle
    rw [List.length_singleton] at hle
    omega
  have hskip : (builtIn n h f macros).lexicon.isSkip ')' = false := by
    show Lexicon.base.isSkip ')' = false
    decide
  rw [Lexicon.tokensFrom_eq, Lexicon.scan_keyword position hskip hlongest]
  exact congrArg (fun ts => ([_] ++ ts.1, ts.2)) (Lexicon.tokensFrom_nil _ _)

end

end Grammar

end CubeLang
