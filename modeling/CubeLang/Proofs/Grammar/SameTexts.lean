import CubeLang.Proofs.Grammar.Lexicon

/-!
# Lexicons with the same texts

The texts of a lexicon may be added in any order, and a keyword more than once: what is looked up is
the same, and so is the longest text at the front of another one. So two lexicons with the same
roles of characters and the same texts take every text apart into the same tokens.
-/

set_option autoImplicit false

namespace CubeLang

namespace Trie

variable {t t' : Trie}

theorem longest?_congr (h : ∀ v, t'.lookup? v = t.lookup? v) (cs : List Char) :
    t'.longest? cs = t.longest? cs := by
  cases hfound : t.longest? cs with
  | none =>
    refine longest?_eq_none fun j hj hle => ?_
    rw [h]
    exact lookup?_take_eq_none hj hle fun e k hk => by
      rw [hfound] at hk
      contradiction
  | some m =>
    obtain ⟨e, k⟩ := m
    obtain ⟨hk, hle⟩ := longest?_bounds hfound
    refine longest?_eq_some hk hle ?_ fun j hj hjle => ?_
    · rw [h]
      exact lookup?_take_of_longest? hfound
    · rw [h]
      refine lookup?_take_eq_none (by omega) hjle fun e' k' hk' => ?_
      obtain ⟨rfl, rfl⟩ := Prod.mk.inj (Option.some.inj (hfound.symm.trans hk'))
      exact hj

theorem lookup?_addAll_congr (h : ∀ v, t'.lookup? v = t.lookup? v)
    (entries : List (Entry × List Char)) (v : List Char) :
    (addAll entries t').lookup? v = (addAll entries t).lookup? v := by
  induction entries generalizing t t' with
  | nil => exact h v
  | cons e es ih =>
    refine ih fun v => ?_
    rw [lookup?_insert, lookup?_insert, h, h]

/-- Keywords are looked up whatever their order. -/
theorem lookup?_addAll_keywords (texts : List (List Char)) (v : List Char) :
    (addAll (texts.map fun text => (.keyword, text)) empty).lookup? v =
      if v ∈ texts then some .keyword else none := by
  split
  · rename_i hmem
    refine lookup?_addAll_keyword (List.mem_map_of_mem hmem) ?_ ?_
    · intro e he
      obtain ⟨_, -, heq⟩ := List.mem_map.mp he
      exact (Prod.mk.inj heq).1.symm
    · intro e he
      rw [lookup?_empty] at he
      contradiction
  · rename_i hmem
    rw [lookup?_addAll_of_not_mem, lookup?_empty]
    intro e he
    obtain ⟨text, htext, heq⟩ := List.mem_map.mp he
    exact hmem ((Prod.mk.inj heq).2 ▸ htext)

end Trie

namespace Lexicon

variable {lex lex' : Lexicon}

/-- Two lexicons give each character the same role and have the same texts. -/
structure SameTexts (lex' lex : Lexicon) : Prop where
  rules : lex'.rules = lex.rules
  lookup? : ∀ v, lex'.trie.lookup? v = lex.trie.lookup? v

namespace SameTexts

theorem role? (h : lex'.SameTexts lex) : lex'.role? = lex.role? := by
  funext c
  unfold Lexicon.role?
  rw [h.rules]

theorem isSkip (h : lex'.SameTexts lex) : lex'.isSkip = lex.isSkip := by
  funext c
  unfold Lexicon.isSkip
  rw [h.role?]

theorem isDigit (h : lex'.SameTexts lex) : lex'.isDigit = lex.isDigit := by
  funext c
  unfold Lexicon.isDigit
  rw [h.role?]

theorem isPlain (h : lex'.SameTexts lex) : lex'.isPlain = lex.isPlain := by
  funext c
  unfold Lexicon.isPlain
  rw [h.role?]

theorem scan (h : lex'.SameTexts lex) (position : Nat) (cs : List Char) :
    lex'.scan position cs = lex.scan position cs := by
  have hlongest := Trie.longest?_congr h.lookup?
  fun_induction lex.scan position cs with
  | case1 position cs here =>
    rw [scan_eq, h.isSkip, here]
    rfl
  | case2 position cs start c rest here k found =>
    rw [scan_eq, h.isSkip, here, scanBehind_keyword ((hlongest _).trans found)]
  | case3 position cs start c rest here close k found behind k' ih =>
    rw [scan_eq, h.isSkip, here, scanBehind_comment ((hlongest _).trans found)]
    exact ih
  | case4 position cs start c rest here found digit digits behind value hvalue =>
    rw [scan_eq, h.isSkip, here, scanBehind_digits ((hlongest _).trans found) (h.isDigit ▸ digit),
      h.isDigit, hvalue]
  | case5 position cs start c rest here found digit digits behind hvalue =>
    rw [scan_eq, h.isSkip, here, scanBehind_digits ((hlongest _).trans found) (h.isDigit ▸ digit),
      h.isDigit, hvalue]
  | case6 position cs start c rest here found digit word =>
    rw [scan_eq, h.isSkip, here, scanBehind_word ((hlongest _).trans found) (h.isDigit ▸ digit),
      h.isPlain]

theorem tokensFrom (h : lex'.SameTexts lex) (position : Nat) (cs : List Char) :
    lex'.tokensFrom position cs = lex.tokensFrom position cs := by
  fun_induction lex.tokensFrom position cs with
  | case1 position cs found => rw [tokensFrom_eq, h.scan, found]
  | case2 position cs stop rest found => rw [tokensFrom_eq, h.scan, found]
  | case3 position cs t rest found ts ending hbehind ih =>
    rw [tokensFrom_eq, h.scan, found]
    dsimp only
    rw [ih, hbehind]

/-- Lexicons with the same texts take each text apart alike. -/
theorem tokens (h : lex'.SameTexts lex) (text : List Char) :
    lex'.tokens text = lex.tokens text := by
  rw [Lexicon.tokens, Lexicon.tokens, h.tokensFrom]

end SameTexts

end Lexicon

end CubeLang
