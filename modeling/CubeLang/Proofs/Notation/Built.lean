import CubeLang.Proofs.Grammar.BuiltIn
import CubeLang.Proofs.Notation.Calls
import CubeLang.Proofs.Token.Continuation

/-!
# Notations made by edits

A notation comes about by edits that succeed, from one without tokens or from a built-in one. None of
them brings in an empty token or a macro without a name, so that there is a grammar for the notation,
with any further macros that have names. Its numbers are made of the decimal digits, and every text
can be taken apart into tokens to its end.
-/

set_option autoImplicit false

namespace CubeLang

namespace Notation

/-- The notations that come about by successful edits of one without tokens or of a built-in one. -/
inductive Built : Notation → Prop
  | empty {layerCount : Int} {n : Notation} (h : Notation.empty layerCount = .ok n) : Built n
  | default {layerCount : Int} {n : Notation} (h : Notation.default layerCount = .ok n) : Built n
  | addToken {n n' : Notation} {s : Symbol} {token : String} (h : Built n)
      (hedit : addToken s token n = .ok () n') : Built n'
  | removeToken {n n' : Notation} {s : Symbol} {token : String} (h : Built n)
      (hedit : removeToken s token n = .ok () n') : Built n'
  | addMove {n n' : Notation} {m : Move} {token : String} (h : Built n)
      (hedit : addMove m token n = .ok () n') : Built n'
  | addMacro {n n' : Notation} {identifier script : String} (h : Built n)
      (hedit : addMacro identifier script n = .ok () n') : Built n'
  | setFixity {n n' : Notation} {s : Symbol} {f : Fixity} (h : Built n)
      (hedit : setFixity s f n = .ok () n') : Built n'

/-! ## What successful edits do -/

section

variable {n n' : Notation} {s : Symbol} {token identifier script : String} {m : Move}

theorem eq_of_addToken (h : addToken s token n = .ok () n') : token ≠ "" ∧ n' = n.bind s token := by
  rw [addToken_eq] at h
  split at h
  · contradiction
  · exact ⟨‹_›, (EStateM.Result.ok.inj h).2.symm⟩

theorem eq_of_addMove (h : addMove m token n = .ok () n') :
    n' = n ∨ token ≠ "" ∧ n' = n.bindMove m token := by
  rw [addMove_eq] at h
  split at h
  · contradiction
  · split at h
    · exact Or.inl (EStateM.Result.ok.inj h).2.symm
    · split at h
      · contradiction
      · exact Or.inr ⟨‹_›, (EStateM.Result.ok.inj h).2.symm⟩

theorem eq_of_addMacro (h : addMacro identifier script n = .ok () n') : identifier ≠ "" ∧
    n' = { n with macros := n.macros.put identifier script }.bind .macroName identifier :=
  eq_of_addToken h

end

/-! ## No empty texts -/

/-- Whether a notation has no empty token and no macro without a name. -/
structure Worded (n : Notation) : Prop where
  tokens : ∀ token ∈ n.tokens, token ≠ ""
  bindings : ∀ b ∈ n.bindings, b.2 ≠ ""
  macros : ∀ name ∈ n.macros.keys, name ≠ ""

namespace Worded

variable {n : Notation} {s : Symbol} {token : String}

theorem bind (h : n.Worded) (htoken : token ≠ "") : (n.bind s token).Worded where
  tokens other hother := by
    rw [tokens_bind, mem_listed] at hother
    rcases hother with rfl | hother
    · exact htoken
    · exact h.tokens other hother
  bindings b hb := by
    rw [bindings_bind, mem_listed] at hb
    rcases hb with rfl | hb
    · exact htoken
    · exact h.bindings b hb
  macros := h.macros

theorem unbind (h : n.Worded) : (n.unbind s token).Worded where
  tokens other hother := by
    simp only [Notation.unbind] at hother
    split at hother
    · exact h.tokens other hother
    · exact h.tokens other (List.mem_filter.mp hother).1
  bindings b hb := h.bindings b (List.mem_filter.mp hb).1
  macros := h.macros

theorem bindMove (h : n.Worded) (m : Move) (htoken : token ≠ "") : (n.bindMove m token).Worded := by
  unfold Notation.bindMove
  split
  · exact h
  · have hbound : (n.bind .move token).Worded := h.bind htoken
    exact ⟨hbound.tokens, hbound.bindings, hbound.macros⟩

theorem putMacro (h : n.Worded) {identifier : String} (script : String) (hname : identifier ≠ "") :
    { n with macros := n.macros.put identifier script }.Worded where
  tokens := h.tokens
  bindings := h.bindings
  macros name hmem := by
    rcases Table.mem_keys_put.mp hmem with rfl | hmem
    · exact hname
    · exact h.macros name hmem

theorem ofLayerCount {k : Nat} (h : 2 ≤ k) : (Notation.ofLayerCount k h).Worded where
  tokens token htoken := by
    rintro rfl
    rw [mem_tokens_ofLayerCount h (by decide)] at htoken
    exact absurd htoken (by decide)
  bindings b hb := by
    rcases List.mem_append.mp hb with hb | hb
    · have hnone : ∀ b ∈ defaultTokens, b.2 ≠ "" := by decide
      exact hnone b hb
    · obtain ⟨e, he, rfl⟩ := List.mem_map.mp hb
      intro hempty
      have hcapital := capital_of_mem_defaultMoves he
      have hempty : e.1 = "" := hempty
      rw [hempty] at hcapital
      exact absurd hcapital (by decide)
  macros name hname := by contradiction

end Worded

/-- No edit that succeeds brings in an empty text. -/
theorem Built.worded {n : Notation} (h : n.Built) : n.Worded := by
  induction h with
  | empty h =>
    unfold Notation.empty at h
    split at h
    · obtain rfl := Except.ok.inj h
      exact ⟨by simp, by simp, fun name hname => by contradiction⟩
    · contradiction
  | default h =>
    unfold Notation.default at h
    split at h
    · obtain rfl := Except.ok.inj h
      exact .ofLayerCount _
    · contradiction
  | addToken _ hedit ih =>
    obtain ⟨htoken, rfl⟩ := eq_of_addToken hedit
    exact ih.bind htoken
  | removeToken _ hedit ih =>
    obtain ⟨-, rfl⟩ := EStateM.Result.ok.inj hedit
    exact ih.unbind
  | addMove _ hedit ih =>
    rcases eq_of_addMove hedit with rfl | ⟨htoken, rfl⟩
    · exact ih
    · exact ih.bindMove _ htoken
  | addMacro _ hedit ih =>
    obtain ⟨hname, rfl⟩ := eq_of_addMacro hedit
    exact (ih.putMacro _ hname).bind hname
  | setFixity _ hedit ih =>
    obtain ⟨-, rfl⟩ := EStateM.Result.ok.inj hedit
    exact ⟨ih.tokens, ih.bindings, ih.macros⟩

end Notation

namespace Grammar

variable {n : Notation} {macros : Table String String} {g : Grammar}

/-- The grammar of a notation without empty texts, with macros that have names. -/
theorem ofNotation_of_worded (hn : n.Worded) (hnames : ∀ name ∈ macros.keys, name ≠ "") :
    Grammar.ofNotation n macros = .ok
      { terms := n
        macros := macros.putAll n.macros.entries
        lexicon := { Lexicon.base with
          trie := Trie.addAll (entries n (macros.putAll n.macros.entries)) Trie.empty } } := by
  have hall : ∀ name ∈ (macros.putAll n.macros.entries).keys, name ≠ "" := by
    intro name hname
    rcases Table.mem_keys_putAll.mp hname with hname | hname
    · exact hn.macros name hname
    · exact hnames name hname
  have htokensFor : ∀ s, ∀ opening ∈ n.tokensFor s, opening ≠ "" := by
    intro s opening hopening
    obtain ⟨b, hb, rfl⟩ := List.mem_map.mp hopening
    exact hn.bindings b (List.mem_filter.mp hb).1
  have hrun : lexiconOf n (macros.putAll n.macros.entries) Lexicon.base = _ :=
    lexiconOf_run hn.tokens hall (htokensFor .blockCommentBegin) (htokensFor .lineCommentBegin)
  have hbase : ({} : Lexicon).skipWhitespace.addNumbers = Lexicon.base := rfl
  unfold ofNotation
  simp only [hbase, EStateM.run, hrun]
  rfl

/-- The numbers of a grammar are made of the decimal digits. -/
theorem rules_of_ofNotation (hn : n.Worded) (hnames : ∀ name ∈ macros.keys, name ≠ "")
    (hg : Grammar.ofNotation n macros = .ok g) : g.lexicon.rules = Lexicon.base.rules := by
  rw [ofNotation_of_worded hn hnames] at hg
  rw [← Except.ok.inj hg]

/-- Every text can be taken apart into tokens to its end. -/
theorem tokensFrom_ending (hn : n.Worded) (hnames : ∀ name ∈ macros.keys, name ≠ "")
    (hg : Grammar.ofNotation n macros = .ok g) (position : Nat) (text : List Char) :
    (g.lexicon.tokensFrom position text).2 = none := by
  refine Lexicon.ending_eq_none fun c hc => ?_
  have hbase : g.lexicon.isDigit c = Lexicon.base.isDigit c := by
    unfold Lexicon.isDigit Lexicon.role?
    rw [rules_of_ofNotation hn hnames hg]
  exact Lexicon.decimal_of_isDigit_base c (hbase ▸ hc)

end Grammar

end CubeLang
