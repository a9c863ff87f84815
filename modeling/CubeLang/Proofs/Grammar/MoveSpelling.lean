import CubeLang.Proofs.Grammar.Signed
import CubeLang.Proofs.Notation.MoveTokens

/-!
# Spelling moves

A token of a move spells itself in front of a blank or the mark of an inversion, which stand in no
token that begins with a capital letter. So the texts of moves with blanks between them spell the
tokens of the moves, one move after the other.
-/

set_option autoImplicit false

namespace CubeLang

open Notation

variable {n : Nat} {h : 2 ≤ n} {f : Fixity} {token : String} {m : Move} {tail : List Char}

namespace Grammar

theorem mem_tokens_of_mem_defaultMoves (hmem : (token, m) ∈ defaultMoves n) :
    token ∈ (ofLayerCount n h).tokens :=
  List.mem_append_right _ (List.mem_map.mpr ⟨_, hmem, rfl⟩)

/-- What begins with a capital letter and is no word is no keyword. -/
theorem lookup?_of_not_wordlike {cs : List Char} (hcapital : Capital (String.ofList cs))
    (hword : ¬Wordlike (String.ofList cs)) : (signed n h f).lexicon.trie.lookup? cs = none := by
  have hdefault : ∀ token ∈ defaultTokens.map Prod.snd, ¬Capital token := by decide
  cases hlookup : (signed n h f).lexicon.trie.lookup? cs with
  | none => rfl
  | some e =>
    rcases mem_entries_builtIn (mem_entries_of_lookup? hlookup) with ⟨token, htoken, heq⟩ | he
    · obtain rfl : cs = token.toList := (Prod.mk.inj heq).2
      rw [String.ofList_toList] at hcapital hword
      rcases htoken with htoken | hname
      · rcases List.mem_append.mp htoken with htoken | hmove
        · exact absurd hcapital (hdefault token (List.mem_eraseDups.mp htoken))
        · obtain ⟨e, he, rfl⟩ := List.mem_map.mp hmove
          exact absurd (wordlike_of_mem_defaultMoves he) hword
      · contradiction
    · simp only [List.mem_cons, Prod.mk.injEq, List.not_mem_nil, or_false] at he
      rcases he with ⟨-, rfl⟩ | ⟨-, rfl⟩
      · exact absurd hcapital (by decide)
      · exact absurd hcapital (by decide)

/-- A token of a move spells itself in front of what is in no word. -/
theorem spells_moveToken (hmem : (token, m) ∈ defaultMoves n)
    (htail : ∀ c ∈ tail.head?, ¬(c.isAlphanum = true ∨ c = '-')) :
    (signed n h f).lexicon.Spells token.toList [.keyword token] tail := by
  have hcapital : Capital token := capital_of_mem_defaultMoves hmem
  have hfound : (signed n h f).lexicon.trie.lookup? token.toList = some .keyword := by
    refine lookup?_token (mem_tokens_of_mem_defaultMoves hmem) ⟨?_, ?_⟩
    · rintro rfl
      exact absurd hcapital (by decide)
    · rintro rfl
      exact absurd hcapital (by decide)
  have hlonger : ∀ u, u ≠ [] → u <+: tail →
      (signed n h f).lexicon.trie.lookup? (token.toList ++ u) = none := by
    rintro (_ | ⟨d, u⟩) hne hprefix
    · contradiction
    · obtain ⟨rest, rfl⟩ := hprefix
      have htext : String.ofList (token.toList ++ d :: u) = token ++ String.ofList (d :: u) := by
        rw [String.ofList_append, String.ofList_toList]
      apply lookup?_of_not_wordlike
      · rw [htext]
        exact hcapital.append _
      · intro hword
        exact htail d rfl (hword d (by simp [String.toList_ofList]))
  cases htoken : token.toList with
  | nil =>
    obtain rfl : token = "" := String.toList_injective htoken
    exact absurd hcapital (by decide)
  | cons c cs =>
    rw [htoken] at hfound hlonger
    have hupper : c.isUpper = true := by simpa [Capital, htoken] using hcapital
    have hskip : (signed n h f).lexicon.isSkip c = false := Lexicon.isSkip_base_of_isUpper hupper
    have hspells := Lexicon.spells_keyword hskip hfound hlonger
    rwa [← htoken, String.ofList_toList, htoken] at hspells

/-- The mark of an inversion spells itself, whatever stands behind it. -/
theorem spells_inversionMark (tail : List Char) :
    (signed n h f).lexicon.Spells "'".toList [.keyword "'"] tail := by
  have hunique : ∀ v ∈ defaultTokens.map Prod.snd, ['\''].isPrefixOf v.toList = true → v = "'" := by
    decide
  apply spells_token (by decide) (by decide) (by decide) (by decide)
  intro v hv u hu _ heq
  obtain rfl := hunique v hv (by rw [heq]; rfl)
  exact hu (List.self_eq_append_right.mp heq)

end Grammar

/-! ## Texts of moves -/

/-- The lexemes of a text for a move: a token that names it, or one that names the opposite move with
the mark of an inversion. -/
inductive Move.Lexemes (n : Nat) (m : Move) : List Lexeme → Prop
  | token {token : String} (hmem : (token, m) ∈ defaultMoves n) : Lexemes n m [.keyword token]
  | inverse {token : String} (hmem : (token, m.inverse) ∈ defaultMoves n) :
      Lexemes n m [.keyword token, .keyword "'"]

namespace Grammar

/-- The text of a move that can be written spells lexemes for the move in front of a blank. -/
theorem spells_moveText (hm : Named n m) : ∃ ls, m.Lexemes n ls ∧
    (signed n h f).lexicon.SpellsBefore (· = ' ') (moveText (ofLayerCount n h) m) ls := by
  unfold moveText
  cases htoken : (ofLayerCount n h).moveToken? m with
  | some token =>
    have hmem := mem_of_moveToken? htoken
    refine ⟨_, .token hmem, fun tail htail => spells_moveToken hmem ?_⟩
    intro c hc
    obtain rfl := htail c hc
    decide
  | none =>
    obtain ⟨token, hinverse⟩ : ∃ token, (ofLayerCount n h).moveToken? m.inverse = some token := by
      have hsome := hm.isSome_moveToken? (h := h)
      rw [htoken] at hsome
      exact Option.isSome_iff_exists.mp (hsome.resolve_left (by simp))
    have hmem := mem_of_moveToken? hinverse
    refine ⟨_, .inverse hmem, fun tail htail => ?_⟩
    simp only [hinverse, Option.getD_some]
    rw [String.toList_append]
    refine (spells_moveToken hmem ?_).append (spells_inversionMark tail)
    intro c hc
    obtain rfl := Option.some.inj hc
    decide

/-- The texts of moves with blanks between them spell lexemes for all the moves. -/
theorem spells_moveTexts {moves : List Move} (hmoves : ∀ m ∈ moves, Named n m) :
    ∃ lss, List.Forall₂ (Move.Lexemes n) moves lss ∧ (signed n h f).lexicon.Spells
      (" ".intercalate (moves.map (moveText (ofLayerCount n h)))).toList lss.flatten [] := by
  have hskip : (signed n h f).lexicon.isSkip ' ' = true := by
    show Lexicon.base.isSkip ' ' = true
    decide
  obtain ⟨lss, hlexemes, hspells⟩ : ∃ lss, List.Forall₂ (Move.Lexemes n) moves lss ∧
      List.Forall₂ ((signed n h f).lexicon.SpellsBefore (· = ' '))
        (moves.map (moveText (ofLayerCount n h))) lss := by
    induction moves with
    | nil => exact ⟨[], .nil, .nil⟩
    | cons m moves ih =>
      obtain ⟨ls, hls, hm⟩ := spells_moveText (h := h) (f := f) (hmoves m List.mem_cons_self)
      obtain ⟨lss, hlss, hrest⟩ := ih fun m hm => hmoves m (List.mem_cons_of_mem _ hm)
      exact ⟨ls :: lss, .cons hls hlss, .cons hm hrest⟩
  have hblank : " ".toList = [' '] := rfl
  have hall := Lexicon.SpellsBefore.intercalate (p := (· = ' ')) hblank rfl hskip hspells
  exact ⟨lss, hlexemes, hall [] (by simp)⟩

end Grammar

end CubeLang
