import CubeLang.Proofs.Grammar.Derivation
import CubeLang.Proofs.Grammar.TextReading
import CubeLang.Proofs.Token.Spelling

/-!
# The tokens that scripts are made of

A script is made of numbers, uses of macros and keywords for symbols of scripts. So a text that is
accepted has no word among its tokens, and no keyword that stands for a comment only.
-/

set_option autoImplicit false

namespace CubeLang.Reading

variable {r : Reading} {t : Token} {ts : List Token}

/-- Whether scripts can be made of a token: it is a number, the use of a macro, or a keyword for a symbol
that is no part of comments. -/
def Meaningful (r : Reading) (t : Token) : Prop :=
  t.value?.isSome = true ∨ t.isKeyword = true ∧ r.grammar.macros.contains t.text = true ∨
    ∃ s : Symbol, s.composite ≠ .comment ∧ r.grammar.isA s t = true

theorem meaningful_of_isA {s : Symbol} (h : r.grammar.isA s t = true) (hs : s.composite ≠ .comment) :
    r.Meaningful t :=
  Or.inr (Or.inr ⟨s, hs, h⟩)

/-- A meaningful token is a number or a keyword. -/
theorem Meaningful.kind_ne_word (h : r.Meaningful t) : t.kind ≠ .word := by
  intro hkind
  rcases h with hvalue | ⟨hkeyword, -⟩ | ⟨s, -, hs⟩
  · simp [Token.value?, hkind] at hvalue
  · simp [Token.isKeyword, hkind] at hkeyword
  · have hkeyword := isKeyword_of_isA hs
    simp [Token.isKeyword, hkind] at hkeyword

/-- What is looked for among the symbols of a token is one of them. -/
theorem meaningful_of_find? {symbols : List Symbol} (hsymbols : ∀ s ∈ symbols, s.composite ≠ .comment)
    {s : Symbol} (h : ((r.grammar.symbols t).find? fun s => symbols.contains s) = some s) :
    r.Meaningful t :=
  meaningful_of_isA (List.contains_iff_mem.mpr (List.mem_of_find?_eq_some h))
    (hsymbols s (List.contains_iff_mem.mp (by simpa using List.find?_some h)))

theorem meaningful_of_signAt {place : Prop} {o : Option Token} (h : r.SignAt place o) :
    ∀ t ∈ o.toList, r.Meaningful t := by
  intro t ht
  obtain ⟨s, hs⟩ := Option.isSome_iff_exists.mp (h t (by simpa using ht)).2
  exact meaningful_of_find? (by decide) hs

theorem meaningful_of_partTokens {c c' : PartCycle} (h : r.PartTokens c c' ts) :
    ∀ t ∈ ts, r.Meaningful t := by
  obtain ⟨hfront, hfaces, -, -, hnumber, hback, -, -⟩ := h
  simp only [List.forall_mem_append]
  refine ⟨⟨⟨meaningful_of_signAt hfront, ?_⟩, ?_⟩, meaningful_of_signAt hback⟩
  · intro t ht
    obtain ⟨face, hface, rfl⟩ := List.mem_map.mp ht
    exact meaningful_of_find? (by decide) (hfaces face hface)
  · exact fun t ht => Or.inl (hnumber t (by simpa using ht))

theorem meaningful_of_partsTokens {c : PartCycle} {closed : Closed} (h : r.PartsTokens c ts closed) :
    ∀ t ∈ ts, r.Meaningful t := by
  induction h with
  | close hclosing => simpa using meaningful_of_isA hclosing (by decide)
  | part hpart _ ih => exact List.forall_mem_append.mpr ⟨meaningful_of_partTokens hpart, ih⟩
  | delimited hpart hdelimiter _ ih =>
    exact List.forall_mem_append.mpr ⟨meaningful_of_partTokens hpart,
      List.forall_mem_cons.mpr ⟨meaningful_of_isA hdelimiter (by decide), ih⟩⟩
  | signed hpart hsign hclosing =>
    refine List.forall_mem_append.mpr ⟨meaningful_of_partTokens hpart, List.forall_mem_cons.mpr ⟨?_, ?_⟩⟩
    · exact meaningful_of_signAt hsign _ (by simp)
    · simpa using meaningful_of_isA hclosing (by decide)

theorem meaningful_of_permutationTokens {s : Script} (h : r.PermutationTokens ts s) :
    ∀ t ∈ ts, r.Meaningful t := by
  obtain ⟨hleading, hopening, hopened, hparts, htrailing, -⟩ := h
  simp only [List.forall_mem_append, List.forall_mem_cons]
  exact ⟨meaningful_of_signAt hleading, meaningful_of_isA hopening (by decide),
    ⟨meaningful_of_signAt hopened, meaningful_of_partsTokens hparts⟩, meaningful_of_signAt htrailing⟩

theorem meaningful_of_affixTokens {place : Fixity} {a : Affix} (h : r.AffixTokens place ts a) :
    ∀ t ∈ ts, r.Meaningful t := by
  have honly : ∀ {s : Symbol} {t : Token}, r.grammar.isOnly s t = true → r.grammar.isA s t = true :=
    fun h => ((Bool.and_eq_true ..).mp h).1
  cases h with
  | repetition _ hcount =>
    obtain ⟨hopening, hvalue, -, hclosing⟩ := hcount
    simp only [List.forall_mem_append, List.forall_mem_cons, Option.mem_toList]
    exact ⟨fun t ht => meaningful_of_isA (honly (hopening t ht)) (by decide), Or.inl (by simp [hvalue]),
      fun t ht => meaningful_of_isA (honly (hclosing t ht)) (by decide)⟩
  | inversion _ hoperator => simpa using meaningful_of_isA hoperator (by decide)
  | reflection _ hoperator => simpa using meaningful_of_isA hoperator (by decide)

theorem composite_brackets (k : BinaryKind) : k.opening.composite ≠ .comment ∧
    k.delimiter.composite ≠ .comment ∧ k.closing.composite ≠ .comment := by
  cases k <;> decide

/-- **All tokens of a script are meaningful.** -/
theorem meaningful_of_derives {scripts : List Script} (h : r.Derives ts scripts) :
    ∀ t ∈ ts, r.Meaningful t := by
  induction h with
  | nil => exact List.forall_mem_nil _
  | append _ _ ih ih' => exact List.forall_mem_append.mpr ⟨ih, ih'⟩
  | move hmove => simpa using meaningful_of_isA hmove (by decide)
  | macroUse hkeyword hknown =>
    simp only [List.forall_mem_cons]
    exact ⟨Or.inr (Or.inl ⟨hkeyword, hknown⟩), List.forall_mem_nil _⟩
  | nop hnop => simpa using meaningful_of_isA hnop (by decide)
  | permutation hcycle => exact meaningful_of_permutationTokens hcycle
  | grouping hopening _ hclosing ih =>
    simp only [List.forall_mem_append, List.forall_mem_cons]
    exact ⟨⟨meaningful_of_isA hopening (by decide), ih⟩, meaningful_of_isA hclosing (by decide),
      List.forall_mem_nil _⟩
  | inversion _ hopening _ hclosing ih =>
    simp only [List.forall_mem_append, List.forall_mem_cons]
    exact ⟨⟨meaningful_of_isA hopening (by decide), ih⟩, meaningful_of_isA hclosing (by decide),
      List.forall_mem_nil _⟩
  | reflection _ hopening _ hclosing ih =>
    simp only [List.forall_mem_append, List.forall_mem_cons]
    exact ⟨⟨meaningful_of_isA hopening (by decide), ih⟩, meaningful_of_isA hclosing (by decide),
      List.forall_mem_nil _⟩
  | @divided k _ _ _ _ _ _ _ _ hopening _ hdelimiter _ hclosing ih ih' =>
    obtain ⟨hopens, hdivides, hcloses⟩ := composite_brackets k
    simp only [List.forall_mem_append, List.forall_mem_cons]
    exact ⟨⟨⟨meaningful_of_isA hopening hopens, ih⟩, meaningful_of_isA hdelimiter hdivides, ih'⟩,
      meaningful_of_isA hclosing hcloses, List.forall_mem_nil _⟩
  | prefixed ha _ ih => exact List.forall_mem_append.mpr ⟨meaningful_of_affixTokens ha, ih⟩
  | suffixed _ ha ih => exact List.forall_mem_append.mpr ⟨ih, meaningful_of_affixTokens ha⟩
  | @operatorInFront k _ _ _ _ _ _ hopening _ _ hclosing _ ih ih' =>
    obtain ⟨hopens, -, hcloses⟩ := composite_brackets k
    simp only [List.cons_append, List.forall_mem_append, List.forall_mem_cons]
    exact ⟨meaningful_of_isA hopening.1 hopens, ih, meaningful_of_isA hclosing hcloses, ih'⟩
  | @operatorBehind k _ _ _ _ _ _ _ hopening _ _ hclosing ih' ih =>
    obtain ⟨hopens, -, hcloses⟩ := composite_brackets k
    simp only [List.forall_mem_append, List.forall_mem_cons]
    exact ⟨ih', ⟨meaningful_of_isA hopening.1 hopens, ih⟩, meaningful_of_isA hclosing hcloses,
      List.forall_mem_nil _⟩
  | @infixed k f _ _ _ _ _ _ hoperator _ ih ih' =>
    obtain ⟨-, hdivides, -⟩ := composite_brackets k
    refine List.forall_mem_append.mpr ⟨ih, List.forall_mem_cons.mpr ⟨?_, ih'⟩⟩
    obtain ⟨k', -, hk'⟩ := List.exists_of_findSome?_eq_some hoperator
    dsimp only at hk'
    split at hk'
    · rename_i hdelimiter
      obtain ⟨rfl, -⟩ := Prod.mk.inj (Option.some.inj hk')
      exact meaningful_of_isA ((Bool.and_eq_true ..).mp hdelimiter).2 hdivides
    · contradiction

end CubeLang.Reading

namespace CubeLang.Grammar

variable {g : Grammar} {text : String} {root : Script} {m m' : Memory}

/-- A text that is accepted has meaningful tokens only. -/
theorem meaningful_of_parse (hparse : g.parse text m = .ok root m') :
    ∀ t ∈ g.lexicon.tokens text.toList,
      (g.reading g.macros.keys text.toList.length).Meaningful t := by
  obtain ⟨scripts, -, hread⟩ := exists_readAll_of_parse hparse
  exact Reading.meaningful_of_derives (Reading.derives_readAll hread)

/-- So none of its tokens is a word. -/
theorem lexeme_ne_word_of_parse (hparse : g.parse text m = .ok root m') :
    ∀ l ∈ (g.lexicon.tokens text.toList).map Token.lexeme, l.1 ≠ .word := by
  intro l hl
  obtain ⟨t, ht, rfl⟩ := List.mem_map.mp hl
  exact (meaningful_of_parse hparse t ht).kind_ne_word

end CubeLang.Grammar
