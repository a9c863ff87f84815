import CubeLang.Proofs.Grammar.InsertedBlanks
import CubeLang.Proofs.Grammar.MeaningfulTokens
import CubeLang.Proofs.Grammar.Yield
import CubeLang.Proofs.Token.InsertedComments

/-!
# Comments between tokens

A comment in a script of the built-in notation is not seen: put where a token starts or stops, it leaves
the script as it was. There is one exception. The token for a reflection and the opening of a comment
behind it are read as the closing mark of a comment, which is a keyword although it stands for nothing,
and the text is refused.
-/

set_option autoImplicit false

namespace CubeLang.Grammar

variable {n : Nat} {h : 2 ≤ n} {f : Fixity}

/-! ## Keywords with slashes and asterisks -/

/-- A keyword without macros that holds a slash or an asterisk is no token of a move. -/
theorem mem_defaultTokens_of_lookup? {v : List Char} {e : Trie.Entry}
    (he : (builtIn n h f ∅).lexicon.trie.lookup? v = some e) {c : Char} (hc : c ∈ ['/', '*'])
    (hv : c ∈ v) : ∃ token ∈ Notation.defaultTokens.map Prod.snd, v = token.toList := by
  have hwords : ∀ c ∈ ['/', '*'], ¬(c.isAlphanum = true ∨ c = '-') :=
    List.all_iff_forall_prop.mp (by decide)
  obtain ⟨text, rfl, ⟨move, hmove, rfl⟩ | htoken | hname⟩ := exists_text_of_lookup? he
  · exact absurd (Notation.wordlike_of_mem_defaultMoves hmove c hv) (hwords c hc)
  · exact ⟨text, htoken, rfl⟩
  · exact absurd hname (List.not_mem_nil)

/-- The keywords that hold a slash or an asterisk behind something else are those of comments. -/
theorem mem_of_lookup?_append {w u : List Char} {c : Char} (hw : w ≠ []) (hc : c ∈ ['/', '*'])
    (he : (builtIn n h f ∅).lexicon.trie.lookup? (w ++ c :: u) ≠ none) :
    (w, c, u) ∈ [(['/'], '*', []), (['*'], '/', []), (['/'], '/', [])] := by
  have htokens : ∀ token ∈ Notation.defaultTokens.map Prod.snd,
      ∀ i ∈ List.range token.toList.length, i ≠ 0 →
        (['/', '*'].all fun c => token.toList[i]? = some c →
          (token.toList.take i, c, token.toList.drop (i + 1)) ∈
            [(['/'], '*', []), (['*'], '/', []), (['/'], '/', [])]) = true := by decide
  obtain ⟨e, he⟩ := Option.ne_none_iff_exists'.mp he
  obtain ⟨token, htoken, hv⟩ := mem_defaultTokens_of_lookup? he hc (by simp)
  have hsplit := List.all_iff_forall_prop.mp
    (htokens token htoken w.length (by simp [← hv]) (by simpa using hw)) c hc (by simp [← hv])
  rwa [← hv, List.take_left, ← List.drop_drop, List.drop_left, List.drop_one, List.tail_cons] at hsplit

/-- A slash alone is no keyword. -/
theorem lookup?_slash : (builtIn n h f ∅).lexicon.trie.lookup? ['/'] = none := by
  have htokens : ∀ token ∈ Notation.defaultTokens.map Prod.snd, ['/'] ≠ token.toList := by decide
  cases he : (builtIn n h f ∅).lexicon.trie.lookup? ['/'] with
  | none => rfl
  | some e =>
    obtain ⟨token, htoken, hv⟩ := mem_defaultTokens_of_lookup? he (by decide) List.mem_cons_self
    exact absurd hv (htokens token htoken)

/-- A slash and an asterisk open a comment. -/
theorem lookup?_blockComment : (builtIn n h f ∅).lexicon.trie.lookup? ['/', '*'] =
    some (.comment ['*', '/']) := by
  have htrie : (builtIn n h f ∅).lexicon.trie =
      Trie.addAll (entries (Notation.signed n h f) ∅) Trie.empty := rfl
  have hlast : ∀ t : Trie, Trie.addAll [(.comment ['*', '/'], ['/', '*']), (.comment ['\n'], ['/', '/'])] t =
      (t.insert (.comment ['*', '/']) ['/', '*']).insert (.comment ['\n']) ['/', '/'] := fun _ => rfl
  rw [htrie, entries_builtIn, Trie.addAll_append, hlast, Trie.lookup?_insert, if_neg (by decide),
    Trie.lookup?_insert, if_pos rfl]
  rfl

/-! ## Where a comment stands -/

variable {front back comment : List Char}

/-- In front of a slash or an asterisk no token becomes a longer keyword but an asterisk in front of a
slash. -/
theorem separate_builtIn {x : Char} (hx : x ∈ ['/', '*']) (rest : List Char)
    (hstar : x = '/' → ∀ t ∈ (builtIn n h f ∅).lexicon.tokens front, t.stop = front.length →
      t.text ≠ "*") : (builtIn n h f ∅).lexicon.Separate (x :: rest) 0 front where
  digit c hc := by
    have hdigit : ∀ c ∈ ['/', '*'], Lexicon.base.isDigit c = false :=
      List.all_iff_forall_prop.mp (by decide)
    obtain rfl := Option.some.inj hc
    exact hdigit x hx
  reach w u hw hu hprefix he := by
    obtain ⟨c, u, rfl⟩ := List.exists_cons_of_ne_nil hu
    obtain ⟨rfl, -⟩ := List.cons_prefix_cons.mp hprefix
    obtain ⟨d, hd, rfl⟩ : ∃ d ∈ ['/', '*'], w = [d] := by
      have hmem := mem_of_lookup?_append hw hx he
      simp only [List.mem_cons, Prod.mk.injEq, List.not_mem_nil, or_false] at hmem
      rcases hmem with ⟨rfl, -⟩ | ⟨rfl, -⟩ | ⟨rfl, -⟩
      · exact ⟨_, by decide, rfl⟩
      · exact ⟨_, by decide, rfl⟩
      · exact ⟨_, by decide, rfl⟩
    have hdigit : ∀ c ∈ ['/', '*'], Lexicon.base.isDigit c = false :=
      List.all_iff_forall_prop.mp (by decide)
    refine ⟨d, rfl, hdigit d hd, fun close hclose => ?_⟩
    rcases mem_entries_builtIn (mem_entries_of_lookup? hclose) with ⟨text, -, heq⟩ | hmem
    · cases heq
    · simp at hmem
  last t ht hstop c htext hkeyword u hu hprefix := by
    obtain ⟨d, u, rfl⟩ := List.exists_cons_of_ne_nil hu
    obtain ⟨rfl, -⟩ := List.cons_prefix_cons.mp hprefix
    by_contra he
    have hmem := mem_of_lookup?_append (List.cons_ne_nil c []) hx he
    simp only [List.mem_cons, Prod.mk.injEq, List.not_mem_nil, or_false, List.cons.injEq, and_true]
      at hmem
    rcases hmem with ⟨rfl, -⟩ | ⟨rfl, rfl, -⟩ | ⟨rfl, -⟩
    · rw [lookup?_slash] at hkeyword
      contradiction
    · exact hstar rfl t ht (by simpa using hstop) (String.toList_injective htext)
    · rw [lookup?_slash] at hkeyword
      contradiction

variable (hclosed : (builtIn n h f ∅).lexicon.openComment? front = none)
variable (hwords : ∀ l ∈ ((builtIn n h f ∅).lexicon.tokens front).map Token.lexeme, l.1 ≠ .word)
include hclosed hwords

theorem cut_in_front_of {x : Char} (hx : x ∈ ['/', '*']) (rest : List Char)
    (hstar : x = '/' → ∀ t ∈ (builtIn n h f ∅).lexicon.tokens front, t.stop = front.length →
      t.text ≠ "*") : (builtIn n h f ∅).lexicon.Cut 0 front (x :: rest) :=
  Lexicon.cut_of_separate (separate_builtIn hx rest hstar) hclosed (tokensFrom_readable 0 front)
    fun t ht => hwords t.lexeme (List.mem_map_of_mem ht)

/-- Behind anything but an asterisk a comment is not seen. -/
theorem lexemes_insert_comment (hcomment : ¬['*', '/'] <:+: comment)
    (hstar : ∀ t ∈ (builtIn n h f ∅).lexicon.tokens front, t.stop = front.length → t.text ≠ "*") :
    ((builtIn n h f ∅).lexicon.tokens
        (front ++ '/' :: '*' :: (comment ++ '*' :: '/' :: back))).map Token.lexeme =
      ((builtIn n h f ∅).lexicon.tokens front).map Token.lexeme ++
        ((builtIn n h f ∅).lexicon.tokens back).map Token.lexeme := by
  have hlonger : ∀ u, u ≠ [] → (builtIn n h f ∅).lexicon.trie.lookup? ('/' :: '*' :: u) = none := by
    intro u hu
    by_contra he
    have hmem := mem_of_lookup?_append (List.cons_ne_nil '/' []) (by decide) he
    simp [hu] at hmem
  have hskip : (builtIn n h f ∅).lexicon.isSkip '/' = false := by
    show Lexicon.base.isSkip '/' = false
    decide
  rw [(cut_in_front_of hclosed hwords (by decide) _ fun _ => hstar).lexemes,
    Lexicon.lexemes_behind_comment hcomment hskip back lookup?_blockComment hlonger]

/-- Behind an asterisk the opening of a comment is read as a closing mark. -/
theorem mark_mem_lexemes (rest : List Char) :
    Lexeme.keyword "*/" ∈ ((builtIn n h f ∅).lexicon.tokens (front ++ '*' :: '/' :: rest)).map
      Token.lexeme := by
  have hmark : (builtIn n h f ∅).lexicon.trie.lookup? ['*', '/'] = some .keyword :=
    lookup?_keyword (w := "*/") (by decide) (by decide) (by decide)
  have found : (builtIn n h f ∅).lexicon.trie.longest? ('*' :: '/' :: rest) = some (.keyword, 2) := by
    refine Trie.longest?_eq_some (by decide) (by simp) hmark fun j hj hle => ?_
    obtain ⟨j, rfl⟩ : ∃ i, j = i + 1 + 2 := ⟨j - 3, by omega⟩
    obtain ⟨c, rest, rfl⟩ := List.exists_cons_of_length_pos (l := rest) (by
      simp only [List.length_cons] at hle
      omega)
    by_contra he
    have hmem := mem_of_lookup?_append (List.cons_ne_nil '*' []) (by decide) he
    simp at hmem
  have here : ('*' :: '/' :: rest).dropWhile (builtIn n h f ∅).lexicon.isSkip = '*' :: '/' :: rest := by
    refine List.dropWhile_cons_of_neg ?_
    show ¬Lexicon.base.isSkip '*' = true
    decide
  rw [(cut_in_front_of hclosed hwords (by decide) _ fun hx => absurd hx (by decide)).lexemes,
    Lexicon.lexemes_of_keyword here found]
  exact List.mem_append_right _ List.mem_cons_self

end CubeLang.Grammar

namespace CubeLang.Reading

variable {r : Reading} {n : Nat} {h : 2 ≤ n} {t : Token}

/-- A closing mark of a comment is in no script. -/
theorem not_meaningful_mark (hr : r.grammar = Grammar.builtIn n h .precircumfixed ∅)
    (ht : t.lexeme = .keyword "*/") : ¬r.Meaningful t := by
  obtain ⟨hkind, htext⟩ := Prod.mk.inj ht
  rintro (hvalue | ⟨-, hmacro⟩ | ⟨s, hs, hisA⟩)
  · simp [Token.value?, hkind] at hvalue
  · rw [hr] at hmacro
    contradiction
  · have htokens : ∀ b ∈ Notation.signedTokens .precircumfixed, b.2 = "*/" →
        b.1.composite = .comment := by decide
    have hcapital : ¬Notation.Capital t.text := by
      rw [htext]
      decide
    exact hs (htokens _ ((mem_symbols_iff hr hcapital).mp (List.contains_iff_mem.mp hisA)).2 htext)

end CubeLang.Reading

namespace CubeLang.Grammar

/-- Behind the token for a reflection a comment cannot be read. -/
theorem refused_behind_asterisk {n : Nat} {h : 2 ≤ n} {front back text : String} {rest : List Char}
    {t : Token} {m : Memory}
    (hwords : ∀ l ∈ ((builtIn n h .precircumfixed ∅).lexicon.tokens (front ++ back).toList).map
      Token.lexeme, l.1 ≠ .word)
    (ht : t ∈ (builtIn n h .precircumfixed ∅).lexicon.tokens (front ++ back).toList)
    (htext : t.text = "*") (hstop : t.stop = front.toList.length)
    (hrest : text.toList = front.toList ++ '/' :: rest) :
    ∃ e m', (builtIn n h .precircumfixed ∅).parse text m = .error e m' := by
  obtain ⟨before, behind, hsplit, hstart, hend⟩ := (Lexicon.standsIn_of_tokensFrom _ 0 _).2 t ht
  rw [htext] at hsplit hend
  rw [String.toList_append] at hsplit ht hwords
  obtain ⟨hfront, rfl⟩ : front.toList = before ++ ['*'] ∧ back.toList = behind := by
    refine List.append_inj (hsplit.trans (List.append_assoc before ['*'] behind).symm) ?_
    simp only [List.length_append, List.length_singleton]
    have : "*".toList.length = 1 := rfl
    omega
  rw [hsplit] at hwords ht
  have hcut := Lexicon.cut_of_mem ht (Or.inl hstart)
  have hmark := mark_mem_lexemes (n := n) (h := h) (f := .precircumfixed) hcut.closed
    (fun l hl => hwords l (by rw [hcut.lexemes]; exact List.mem_append_left _ hl)) rest
  obtain ⟨mark, hmem, hlexeme⟩ := List.mem_map.mp hmark
  cases hparse : (builtIn n h .precircumfixed ∅).parse text m with
  | error e m' => exact ⟨e, m', rfl⟩
  | ok root m' =>
    have hmeaningful := meaningful_of_parse hparse mark (by
      rw [hrest, hfront, List.append_assoc]
      exact hmem)
    exact absurd hmeaningful (Reading.not_meaningful_mark rfl hlexeme)

variable {layerCount : Int} {terms : Notation} {g : Grammar} {front comment back : String}
variable {root : Script} {m m' : Memory}

/-- **A comment between tokens is not seen.** Put where a token of an accepted text starts or stops, or at
the end of the text if no other comment is open there, a complete comment leaves the script as it was up
to offsets. Only right behind the token for a reflection it makes the text one that is refused. -/
theorem comment_transparent (hterms : Notation.default layerCount = .ok terms)
    (hgrammar : Grammar.ofNotation terms ∅ = .ok g) (hparse : g.parse (front ++ back) m = .ok root m')
    (hplace : g.lexicon.AtToken front.toList back.toList ∨
      back = "" ∧ g.lexicon.openComment? front.toList = none)
    (hcomment : ¬['*', '/'] <:+: comment.toList) :
    if ∃ t ∈ g.lexicon.tokens (front ++ back).toList, t.text = "*" ∧ t.stop = front.toList.length then
      ∃ e m'', g.parse (front ++ "/*" ++ comment ++ "*/" ++ back) m = .error e m''
    else ∃ root' m'', g.parse (front ++ "/*" ++ comment ++ "*/" ++ back) m = .ok root' m'' ∧
      root'.unplaced = root.unplaced := by
  obtain ⟨n, h, rfl⟩ := eq_builtIn hterms (fun name hname => by contradiction) hgrammar
  have htext : (front ++ "/*" ++ comment ++ "*/" ++ back).toList =
      front.toList ++ '/' :: '*' :: (comment.toList ++ '*' :: '/' :: back.toList) := by
    simp
  have hcut : (builtIn n h .precircumfixed ∅).lexicon.Cut 0 front.toList back.toList := by
    rcases hplace with htoken | ⟨rfl, hclosed⟩
    · exact htoken.cut
    · exact Lexicon.Cut.atEnd (tokensFrom_readable 0 _) hclosed
  have hwords := lexeme_ne_word_of_parse hparse
  split
  · rename_i hstar
    obtain ⟨t, ht, htoken, hstop⟩ := hstar
    exact refused_behind_asterisk hwords ht htoken hstop htext
  · rename_i hstar
    rw [String.toList_append, hcut.lexemes] at hwords
    refine exists_parse_of_lexemes hparse ?_
    rw [htext, String.toList_append, hcut.lexemes]
    refine lexemes_insert_comment hcut.closed (fun l hl => hwords l (List.mem_append_left _ hl)) hcomment
      fun t ht hstop htext => hstar ⟨t, ?_, htext, hstop⟩
    rw [String.toList_append, Lexicon.tokens, hcut.tokens]
    exact List.mem_append_left _ ht

theorem comment_transparent_turns : ∃ terms g root m' root' m'',
    Notation.default 3 = .ok terms ∧ Grammar.ofNotation terms ∅ = .ok g ∧
    g.parse ("R2" ++ "U'*") {} = .ok root m' ∧ g.lexicon.AtToken "R2".toList "U'*".toList ∧
    ¬['*', '/'] <:+: " then * ".toList ∧
    g.parse ("R2" ++ "/*" ++ " then * " ++ "*/" ++ "U'*") {} = .ok root' m'' ∧
    root'.unplaced = root.unplaced := by
  let g := builtIn 3 (by decide) .precircumfixed ∅
  have hterms : Notation.default 3 = .ok (Notation.signed 3 (by decide) .precircumfixed) := rfl
  have hgrammar : Grammar.ofNotation (Notation.signed 3 (by decide) .precircumfixed) ∅ = .ok g :=
    ofNotation_builtIn (by rintro name ⟨⟩)
  obtain ⟨hread, hplace, hcomment, hstar⟩ :
      (outcome (g.parse ("R2" ++ "U'*") {})).isOk = true ∧
      g.lexicon.AtToken "R2".toList "U'*".toList ∧ ¬['*', '/'] <:+: " then * ".toList ∧
      ¬∃ t ∈ g.lexicon.tokens ("R2" ++ "U'*").toList,
        t.text = "*" ∧ t.stop = "R2".toList.length := by
    decide +kernel
  obtain ⟨root, m', hparse⟩ := exists_eq_ok_of_isOk hread
  have hcommented := comment_transparent hterms hgrammar hparse (Or.inl hplace) hcomment
  rw [if_neg hstar] at hcommented
  obtain ⟨root', m'', hparse', hsame⟩ := hcommented
  exact ⟨_, g, root, m', root', m'', hterms, hgrammar, hparse, hplace, hcomment, hparse', hsame⟩

/-- A comment behind the token for a reflection makes an accepted text one that is refused. -/
theorem commented_reflection_refused : ∃ terms g root m' e m'',
    Notation.default 3 = .ok terms ∧ Grammar.ofNotation terms ∅ = .ok g ∧
    g.parse "R*" {} = .ok root m' ∧ g.lexicon.AtToken "R*".toList [] ∧
    g.parse "R*/**/" {} = .error e m'' := by
  let g := builtIn 3 (by decide) .precircumfixed ∅
  have hterms : Notation.default 3 = .ok (Notation.signed 3 (by decide) .precircumfixed) := rfl
  have hgrammar : Grammar.ofNotation (Notation.signed 3 (by decide) .precircumfixed) ∅ = .ok g :=
    ofNotation_builtIn (by rintro name ⟨⟩)
  obtain ⟨hread, hplace, hrefused⟩ : (outcome (g.parse "R*" {})).isOk = true ∧
      g.lexicon.AtToken "R*".toList [] ∧
      ¬(outcome (g.parse "R*/**/" {})).isOk = true := by
    decide +kernel
  obtain ⟨root, m', hparse⟩ := exists_eq_ok_of_isOk hread
  cases hparse' : g.parse "R*/**/" {} with
  | ok root' m'' =>
    rw [hparse'] at hrefused
    exact absurd rfl hrefused
  | error e m'' => exact ⟨_, g, root, m', e, m'', hterms, hgrammar, hparse, hplace, hparse'⟩

end CubeLang.Grammar
