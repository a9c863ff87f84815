import CubeLang.Proofs.Grammar.BuiltIn

/-!
# Spelling in the built-in notation

The tokens that cycles are written with are keywords of the built-in notation whatever stands behind
them, but for a plus sign, which must not be followed by another one.
-/

set_option autoImplicit false

namespace CubeLang

namespace Grammar

variable {n : Nat} {h : 2 ≤ n} {f : Fixity}

/-- The grammar of the built-in notation for signs of cycles in some place. -/
def signed (n : Nat) (h : 2 ≤ n) (f : Fixity) : Grammar where
  terms := Notation.signed n h f
  macros := ∅
  lexicon :=
    { Lexicon.base with trie := Trie.addAll (entries (Notation.signed n h f) ∅) Trie.empty }

/-- The grammar is that of the notation without further macros. -/
theorem ofNotation_signed : Grammar.ofNotation (Notation.signed n h f) ∅ = .ok (signed n h f) :=
  ofNotation_builtIn fun _ hname => absurd hname List.not_mem_nil

/-! ## The trie -/

theorem lookup?_of_mem {w : String} (hw : w ∈ Notation.defaultTokens.map Prod.snd)
    (hcapital : ¬Notation.Capital w) (hcomment : w ≠ "/*" ∧ w ≠ "//") :
    (signed n h f).lexicon.trie.lookup? w.toList = some .keyword :=
  lookup?_keyword hw hcapital hcomment

theorem lookup?_of_not_mem {cs : List Char}
    (hcs : ∀ w ∈ Notation.defaultTokens.map Prod.snd, w.toList ≠ cs)
    (hcapital : ¬cs.head?.any Char.isUpper = true) :
    (signed n h f).lexicon.trie.lookup? cs = none := by
  cases hlookup : (signed n h f).lexicon.trie.lookup? cs with
  | none => rfl
  | some e =>
    rcases mem_entries_builtIn (mem_entries_of_lookup? hlookup) with ⟨token, htoken, heq⟩ | he
    · obtain rfl : cs = token.toList := (Prod.mk.inj heq).2
      rcases htoken with htoken | hname
      · exact absurd rfl
          (hcs token ((Notation.mem_tokens_ofLayerCount h hcapital).mp htoken))
      · contradiction
    · simp only [List.mem_cons, Prod.mk.injEq, List.not_mem_nil, or_false] at he
      rcases he with ⟨-, he⟩ | ⟨-, he⟩
      · exact absurd he.symm (hcs "/*" (by decide))
      · exact absurd he.symm (hcs "//" (by decide))

/-! ## What is spelled -/

variable {w : String} {tail : List Char}

section

variable (hw : w ∈ Notation.defaultTokens.map Prod.snd)
variable (hcomment : w ≠ "/*" ∧ w ≠ "//") (hcapital : ¬Notation.Capital w)
variable (hskip : w.toList.head?.any Lexicon.base.isSkip = false)
variable (hlonger : ∀ v ∈ Notation.defaultTokens.map Prod.snd, ∀ u, u ≠ [] → u <+: tail →
  v.toList ≠ w.toList ++ u)
include hw hcomment hcapital hskip hlonger

/-- A token is the next one where the text does not go on like a longer one. -/
theorem scan_token (position : Nat) :
    (signed n h f).lexicon.scan position (w.toList ++ tail) =
      .token (.ofChars .keyword position w.toList) tail := by
  have hfound := @lookup?_of_mem n h f w hw hcapital hcomment
  have hne : w.toList ≠ [] := by
    intro hnil
    obtain rfl : w = "" := String.toList_injective hnil
    exact absurd hw (by decide)
  have hnone : ∀ u, u ≠ [] → u <+: tail →
      (signed n h f).lexicon.trie.lookup? (w.toList ++ u) = none := by
    intro u hu hprefix
    apply lookup?_of_not_mem
    · intro v hv
      exact hlonger v hv u hu hprefix
    · obtain ⟨c, cs, hw'⟩ := List.exists_cons_of_ne_nil hne
      unfold Notation.Capital at hcapital
      rw [hw'] at hcapital ⊢
      exact hcapital
  cases hw' : w.toList with
  | nil => exact absurd hw' hne
  | cons c cs =>
    rw [hw'] at hfound hnone hskip
    have hplain : (signed n h f).lexicon.isSkip c = false := hskip
    exact Lexicon.scan_keyword_append hplain hfound hnone position

/-- A token spells itself where the text does not go on like a longer one. -/
theorem spells_token : (signed n h f).lexicon.Spells w.toList [.keyword w] tail := by
  have hspells := Lexicon.spells_of_scan (@scan_token n h f w tail hw hcomment hcapital hskip hlonger)
  rwa [String.ofList_toList] at hspells

end

/-- The tokens of cycles that nothing can make longer. -/
def plainTokens : List String := ["r", "u", "f", "l", "d", "b", "(", ")", ",", "-", "++"]

theorem spells_plainToken (hw : w ∈ plainTokens) (tail : List Char) :
    (signed n h f).lexicon.Spells w.toList [.keyword w] tail := by
  have hfacts : ∀ w ∈ plainTokens, w ∈ Notation.defaultTokens.map Prod.snd ∧
      (w ≠ "/*" ∧ w ≠ "//") ∧ ¬Notation.Capital w ∧
      w.toList.head?.any Lexicon.base.isSkip = false ∧
      ∀ v ∈ Notation.defaultTokens.map Prod.snd, w.toList.isPrefixOf v.toList = true → v = w := by
    decide
  obtain ⟨hmem, hcomment, hcapital, hskip, hunique⟩ := hfacts w hw
  apply spells_token hmem hcomment hcapital hskip
  intro v hv u hu _ heq
  obtain rfl := hunique v hv (by simp [heq])
  simp [hu] at heq

theorem spells_plus (htail : ∀ c ∈ tail.head?, c ≠ '+') :
    (signed n h f).lexicon.Spells "+".toList [.keyword "+"] tail := by
  have hlonger : ∀ v ∈ Notation.defaultTokens.map Prod.snd,
      ['+'].isPrefixOf v.toList = true → v = "+" ∨ v = "++" := by
    decide
  apply spells_token (by decide) (by decide) (by decide) (by decide)
  intro v hv u hu hprefix heq
  rcases hlonger v hv (by rw [heq]; rfl) with rfl | rfl
  · exact hu (List.self_eq_append_right.mp heq)
  · have hcancel : ['+'] ++ ['+'] = ['+'] ++ u := heq
    obtain rfl := List.append_cancel_left hcancel
    obtain ⟨rest, rfl⟩ := hprefix
    exact htail '+' rfl rfl

/-- No keyword begins with a digit. -/
theorem longest?_of_isDigit (c : Char) (cs : List Char) (hc : c.isDigit = true) :
    (signed n h f).lexicon.trie.longest? (c :: cs) = none := by
  have hdigits : ∀ w ∈ Notation.defaultTokens.map Prod.snd, w.toList.head?.any Char.isDigit = false
      := by
    decide
  apply Trie.longest?_eq_none
  intro j hj hle
  obtain ⟨j, rfl⟩ := Nat.exists_eq_succ_of_ne_zero (Nat.ne_of_gt hj)
  apply lookup?_of_not_mem
  · intro w hw heq
    have hfirst := hdigits w hw
    rw [heq, List.take_succ_cons, List.head?_cons, Option.any_some, hc] at hfirst
    contradiction
  · rw [List.take_succ_cons, List.head?_cons, Option.any_some]
    rw [Char.isDigit_iff_toNat] at hc
    have hbound : c.toNat ≤ 57 := hc.2
    intro hupper
    have hrange : 'A'.val ≤ c.val ∧ c.val ≤ 'Z'.val := of_decide_eq_true hupper
    have hbound' : 65 ≤ c.toNat := UInt32.le_iff_toNat_le.mp hrange.1
    omega

theorem spells_number (k : Nat) (htail : ∀ c ∈ tail.head?, c.isDigit = false) :
    (signed n h f).lexicon.Spells (toString k).toList [.number k] tail :=
  Lexicon.spells_number k Lexicon.isDigit_base longest?_of_isDigit htail

end Grammar

end CubeLang
