import CubeLang.Proofs.Grammar.StateSpelling
import CubeLang.Grammar.Permutation

/-!
# What tokens mean

A token that was written for a symbol of cycles means that symbol and no other one of cycles, though
it may stand for groupings, commutations or inversions as well.
-/

set_option autoImplicit false

namespace CubeLang

namespace Reading

variable {r : Reading} {t : Token} {s s' : Symbol}

/-- A token stands for a symbol of cycles and for no other one of them. -/
def Means (r : Reading) (t : Token) (s : Symbol) : Prop :=
  (r.grammar.symbols t).filter (fun s => s.isPartOf .permutation) = [s]

/-- A token stands for no symbol of cycles. -/
def Meaningless (r : Reading) (t : Token) : Prop :=
  (r.grammar.symbols t).filter (fun s => s.isPartOf .permutation) = []

theorem find?_filter_of_imp {α : Type} {p q : α → Bool} (himp : ∀ a, p a = true → q a = true)
    (l : List α) : (l.filter q).find? p = l.find? p := by
  rw [List.find?_filter]
  congr 1
  funext a
  cases hp : p a with
  | true => simp [himp a hp]
  | false => simp

theorem isPartOf_of_mem_signs : ∀ s, Symbol.signs.contains s = true →
    s.isPartOf .permutation = true := by
  intro s
  cases s <;> decide

theorem isPartOf_of_mem_faces : ∀ s, Symbol.faces.contains s = true →
    s.isPartOf .permutation = true := by
  intro s
  cases s <;> decide

theorem Means.signOf?_eq (h : r.Means t s) :
    r.signOf? t = if Symbol.signs.contains s then some s else none := by
  rw [signOf?, ← find?_filter_of_imp isPartOf_of_mem_signs, h, List.find?_singleton]

theorem Means.signOf?_of_mem (h : r.Means t s) (hs : s ∈ Symbol.signs) : r.signOf? t = some s :=
  h.signOf?_eq.trans (if_pos (List.contains_iff_mem.mpr hs))

theorem Means.faceOf?_eq (h : r.Means t s) :
    r.faceOf? t = if Symbol.faces.contains s then some s else none := by
  rw [faceOf?, ← find?_filter_of_imp isPartOf_of_mem_faces, h, List.find?_singleton]

theorem Means.isA_eq (h : r.Means t s) (hpart : s'.isPartOf .permutation = true) :
    r.grammar.isA s' t = decide (s' = s) := by
  have hmem : s' ∈ r.grammar.symbols t ↔ s' = s := by
    rw [← List.mem_singleton, ← h, List.mem_filter]
    exact ⟨fun hmem => ⟨hmem, hpart⟩, And.left⟩
  rw [Grammar.isA, Bool.eq_iff_iff, List.contains_iff_mem, hmem, decide_eq_true_eq]

theorem Meaningless.signOf?_eq (h : r.Meaningless t) : r.signOf? t = none := by
  rw [signOf?, ← find?_filter_of_imp isPartOf_of_mem_signs, h]
  rfl

theorem Meaningless.faceOf?_eq (h : r.Meaningless t) : r.faceOf? t = none := by
  rw [faceOf?, ← find?_filter_of_imp isPartOf_of_mem_faces, h]
  rfl

theorem Meaningless.isA_eq (h : r.Meaningless t) (hpart : s.isPartOf .permutation = true) :
    r.grammar.isA s t = false := by
  rw [Grammar.isA, Bool.eq_false_iff, ne_eq, List.contains_iff_mem]
  exact fun hmem => absurd hpart (by simpa using List.filter_eq_nil_iff.mp h s hmem)

/-- The tokens of the symbols of cycles. -/
def cycleTokens : List (Symbol × String) :=
  Notation.defaultTokens.filter fun b => b.1.isPartOf .permutation

theorem markLexemes_of_mem (hs : s ∈ Symbol.signs) :
    ∃ text, PartCycle.markLexemes (some s) = [.keyword text] ∧ (s, text) ∈ cycleTokens := by
  simp only [Symbol.signs, List.mem_cons, List.not_mem_nil, or_false] at hs
  rcases hs with rfl | rfl | rfl
  · exact ⟨"+", rfl, by decide⟩
  · exact ⟨"-", rfl, by decide⟩
  · exact ⟨"++", rfl, by decide⟩

section Signed

variable {n : Nat} {h : 2 ≤ n} {f : Fixity} (hr : r.grammar = Grammar.signed n h f)
include hr

theorem fixity_permutation : r.grammar.fixity .permutation = f := by
  rw [hr]
  exact Notation.fixity_permutation h f

/-- The symbols of a token that names no move. -/
theorem symbols_of_lexeme {text : String} (ht : t.lexeme = .keyword text)
    (htext : ¬Notation.Capital text) : r.grammar.symbols t =
      ((Notation.signedTokens f).filter fun b => b.2 = text).map Prod.fst := by
  obtain ⟨hkind, htext'⟩ := Prod.mk.inj ht
  have hkeyword : t.isKeyword = true := decide_eq_true hkind
  have hsymbols : r.grammar.symbols t = (Notation.signed n h f).symbolsFor text := by
    rw [hr, Grammar.symbols, if_pos hkeyword, htext']
    rfl
  rw [hsymbols, Notation.symbolsFor_signed h htext]

/-- The tokens of cycles mean what they were written for. -/
theorem means_of_lexeme {text : String} (ht : t.lexeme = .keyword text)
    (htext : (s, text) ∈ cycleTokens) : r.Means t s := by
  have hcapital : ∀ b ∈ cycleTokens, ¬Notation.Capital b.2 := by decide
  have hmeans : ∀ f, ∀ b ∈ cycleTokens, (((Notation.signedTokens f).filter fun b' =>
      b'.2 = b.2).map Prod.fst).filter (fun s => s.isPartOf .permutation) = [b.1] := by
    intro f
    cases f <;> decide
  rw [Means, symbols_of_lexeme hr ht (hcapital _ htext)]
  exact hmeans f _ htext

/-- The token of a sign means the sign. -/
theorem means_mark {ts : List Token} (hs : s ∈ Symbol.signs)
    (hts : ts.map Token.lexeme = PartCycle.markLexemes (some s)) : ∃ t, ts = [t] ∧ r.Means t s := by
  obtain ⟨text, hmark, htext⟩ := markLexemes_of_mem hs
  rw [hmark] at hts
  obtain ⟨t, rfl, ht⟩ := List.map_eq_singleton_iff.mp hts
  exact ⟨t, rfl, means_of_lexeme hr ht htext⟩

theorem means_face {face : Face} (ht : t.lexeme = PartCycle.faceLexeme face) :
    r.Means t face.symbol := by
  apply means_of_lexeme hr ht
  cases face <;> decide

end Signed

theorem meaningless_of_kind (ht : t.kind ≠ .keyword) : r.Meaningless t := by
  have hkeyword : ¬t.isKeyword = true := by simpa [Token.isKeyword] using ht
  rw [Meaningless, Grammar.symbols, if_neg hkeyword]
  rfl

theorem Means.isKeyword_eq (h : r.Means t s) : t.isKeyword = true := by
  by_contra hkeyword
  have hmeaningless := @meaningless_of_kind r t (by simpa [Token.isKeyword] using hkeyword)
  exact absurd (h.symm.trans hmeaningless) (List.cons_ne_nil _ _)

/-- A token that means something is a part of cycles. -/
theorem Means.any_isPartOf (h : r.Means t s) :
    ((r.grammar.symbols t).any fun s => s.isPartOf .permutation) = true := by
  have hmem : s ∈ (r.grammar.symbols t).filter fun s => s.isPartOf .permutation := by
    rw [h]
    exact List.mem_cons_self
  obtain ⟨hmem, hpart⟩ := List.mem_filter.mp hmem
  exact List.any_eq_true.mpr ⟨s, hmem, hpart⟩

theorem Means.value?_eq (h : r.Means t s) : t.value? = none := by
  have hkind : t.kind = .keyword := of_decide_eq_true h.isKeyword_eq
  rw [Token.value?, hkind]

end Reading

end CubeLang
