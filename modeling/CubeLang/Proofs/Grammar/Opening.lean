import CubeLang.Proofs.Grammar.BareExpression
import CubeLang.Proofs.Grammar.BuiltIn
import CubeLang.Proofs.Grammar.PartPieces

/-!
# The opening bracket

What tokens stand for in the built-in notation, and the fixities that it has, are those of its tables. So
an opening bracket begins a cycle of parts or a grouping, as the next token says, and nothing else.
Neither is an affix, and nothing is combined without brackets.
-/

set_option autoImplicit false

namespace CubeLang

namespace Reading

variable {r : Reading} {t : Token} {ts : List Token} {s : Symbol}
variable {n : Nat} {h : 2 ≤ n} {f : Fixity} {macros : Table String String} {m : Memory}

section BuiltIn

variable (hr : r.grammar = Grammar.builtIn n h f macros)
include hr

theorem terms_eq : r.grammar.terms = Notation.signed n h f := by
  rw [hr]
  rfl

/-- The fixities other than that of cycles are those of the built-in notation. -/
theorem fixity_eq (hs : s.composite ≠ .permutation) :
    r.grammar.fixity s = ((⟨Notation.defaultFixities⟩ : Table _ _).get? s.composite).getD .primary := by
  rw [Grammar.fixity, terms_eq hr, Notation.fixity_signed, if_neg hs]
  rfl

/-- The symbols of a token that names no move. -/
theorem mem_symbols_iff (hcapital : ¬Notation.Capital t.text) : s ∈ r.grammar.symbols t ↔
    t.kind = .keyword ∧ (s, t.text) ∈ Notation.signedTokens f := by
  rw [Grammar.symbols, terms_eq hr, Notation.symbolsFor_signed h hcapital, Token.isKeyword]
  by_cases hkind : t.kind = .keyword <;> simp [hkind]

/-- What a token stands for other than a move. -/
theorem isA_iff (hs : s ≠ .move) :
    r.grammar.isA s t = true ↔ t.kind = .keyword ∧ (s, t.text) ∈ Notation.signedTokens f := by
  rw [Grammar.isA, List.contains_iff_mem, Grammar.symbols, terms_eq hr, Token.isKeyword]
  by_cases hkind : t.kind = .keyword
  · simp only [hkind, decide_true, if_true, true_and]
    exact Notation.mem_symbolsFor_signed h hs
  · simp [hkind]

/-- A token stands for a symbol other than a move as the built-in notation says. -/
theorem mem_defaultTokens_of_isA (hs : s ≠ .move) (ht : r.grammar.isA s t = true) :
    t.kind = .keyword ∧ (s, t.text) ∈ Notation.defaultTokens := by
  obtain ⟨hkind, hmem⟩ := (isA_iff hr hs).mp ht
  exact ⟨hkind, (List.mem_filter.mp hmem).1⟩

/-- No token stands for a symbol that the built-in notation has none for. -/
theorem isA_eq_false (hs : s ≠ .move) (hnone : ∀ b ∈ Notation.defaultTokens, b.1 ≠ s) :
    r.grammar.isA s t = false := by
  rw [Bool.eq_false_iff]
  intro ht
  exact hnone _ (mem_defaultTokens_of_isA hr hs ht).2 rfl

theorem fixity_permutation_eq : r.grammar.fixity .permutation = f := by
  rw [Grammar.fixity, terms_eq hr]
  exact Notation.fixity_permutation h f

/-- Of the ways to combine scripts the commutation has brackets, and the others stand in front. -/
theorem fixity_binary (k : BinaryKind) : r.grammar.fixity k.composite =
    if k = .commutation then .precircumfixed else .prefixed := by
  rw [fixity_eq hr (by cases k <;> decide)]
  cases k <;> rfl

/-- Repetition, inversion and reflection stand behind. -/
theorem fixity_suffixed (hs : s ∈ [Symbol.repetition, .inversion, .reflection]) :
    r.grammar.fixity s = .suffixed := by
  have hfacts : ∀ s ∈ [Symbol.repetition, .inversion, .reflection], s.composite ≠ .permutation ∧
      ((⟨Notation.defaultFixities⟩ : Table Symbol Fixity).get? s.composite).getD .primary =
        .suffixed := by decide
  rw [fixity_eq hr (hfacts s hs).1]
  exact (hfacts s hs).2

/-- In the built-in notation nothing is combined without brackets. -/
theorem infixOf?_of_builtIn (t : Token) : r.infixOf? t = none := by
  unfold infixOf?
  rw [List.findSome?_eq_none_iff]
  intro k _
  rw [fixity_binary hr]
  cases k <;> rfl

end BuiltIn

section Opening

variable (hr : r.grammar = Grammar.builtIn n h f macros)
variable (hkind : t.kind = .keyword) (htext : t.text = "(")
include hr hkind htext

/-- An opening bracket opens a cycle or a grouping and is nothing else. -/
theorem isA_opening (s : Symbol) :
    r.grammar.isA s t = decide (s = .permutationBegin ∨ s = .groupingBegin) := by
  have hsymbols : ∀ b ∈ Notation.defaultTokens, b.2 = "(" →
      b.1 = .permutationBegin ∨ b.1 = .groupingBegin := by decide
  have hcapital : ¬Notation.Capital t.text := by
    rw [htext]
    decide
  rw [Bool.eq_iff_iff, decide_eq_true_eq, Grammar.isA, List.contains_iff_mem,
    mem_symbols_iff hr hcapital, htext]
  constructor
  · rintro ⟨-, hmem⟩
    exact hsymbols _ (List.mem_filter.mp hmem).1 rfl
  · rintro (rfl | rfl)
    · exact ⟨hkind, by cases f <;> decide⟩
    · exact ⟨hkind, by cases f <;> decide⟩

theorem isA_of_opening {s : Symbol} (hs : ¬(s = .permutationBegin ∨ s = .groupingBegin)) :
    r.grammar.isA s t = false := by
  rw [isA_opening hr hkind htext, decide_eq_false hs]

theorem find?_symbols_of_opening {p : Symbol → Bool}
    (hp : p .permutationBegin = false ∧ p .groupingBegin = false) :
    (r.grammar.symbols t).find? p = none := by
  rw [List.find?_eq_none]
  intro s hs
  have hisA : r.grammar.isA s t = true := List.contains_iff_mem.mpr hs
  rw [isA_opening hr hkind htext, decide_eq_true_eq] at hisA
  rcases hisA with rfl | rfl
  · simp [hp.1]
  · simp [hp.2]

theorem signOf?_of_opening : r.signOf? t = none :=
  find?_symbols_of_opening hr hkind htext (by decide)

theorem faceOf?_of_opening : r.faceOf? t = none :=
  find?_symbols_of_opening hr hkind htext (by decide)

theorem openedBy_of_opening : r.openedBy t = [.grouping] := by
  have hopened : ∀ k : CompoundKind,
      (r.bracketed k && r.grammar.isA k.opening t) = decide (k = .grouping) := by
    intro k
    rw [isA_opening hr hkind htext]
    cases k with
    | grouping => rfl
    | binary k => cases k <;> exact Bool.and_false _
    | _ => exact Bool.and_false _
  rw [openedBy, List.filter_congr fun k _ => hopened k]
  rfl

theorem readAffix?_of_opening {place : Fixity} {inner : Inner (t :: ts).length} :
    r.readAffix? place (t :: ts) inner m = .ok none m := by
  have hopenings : ∀ k : BinaryKind,
      ¬(k.opening = .permutationBegin ∨ k.opening = .groupingBegin) := by
    intro k
    cases k <;> decide
  exact readAffix?_eq_none hkind (fun k => isA_of_opening hr hkind htext (hopenings k))
    (isA_of_opening hr hkind htext (by decide)) (isA_of_opening hr hkind htext (by decide))
    (isA_of_opening hr hkind htext (by decide))

/-- In a cycle there are no brackets. -/
theorem readPermutation_of_opening (start : Nat) (leading : Option Token) :
    r.readPermutation start leading (t :: ts) = .error (.ofToken .faceMissing t) := by
  have hsign := signOf?_of_opening hr hkind htext
  have hend : r.grammar.isA .permutationEnd t = false := isA_of_opening hr hkind htext (by decide)
  apply readPermutation_of_error
  rw [takeSignIf_of_none hsign]
  exact readParts_of_no_face hend hsign (faceOf?_of_opening hr hkind htext)

variable (hnames : ∀ name ∈ macros.keys, Groupable name)
include hnames

omit hkind in
theorem macros_contains_of_opening : r.grammar.macros.contains t.text = false := by
  have hmacros : r.grammar.macros = macros := by
    rw [hr]
    rfl
  rw [hmacros, Bool.eq_false_iff]
  intro hcontains
  have hhead := (hnames _ (Table.contains_iff_mem_keys.mp hcontains)).head_ne
  rw [htext] at hhead
  exact hhead rfl

/-- A bracket opens a cycle if what follows is a part of cycles, and else a grouping. -/
theorem readStatement_of_bracket {inner : Inner (t :: ts).length} :
    r.readStatement (t :: ts) inner m =
      if (r.grammar.symbols (r.peek ts)).any fun s => s.isPartOf .permutation then
        (do
          let p ← Reader.lift (r.readPermutation t.start none ts)
          return p.widen (Nat.le_succ _) : Reader (Parsed (t :: ts).length Script)) m
      else
        (do
          let p ← r.readCompound inner t.start { kinds := [.grouping] } ts (Nat.lt_succ_self _)
          return p.widen (Nat.le_succ _) : Reader (Parsed (t :: ts).length Script)) m := by
  have hkeyword : t.isKeyword = true := decide_eq_true hkind
  have hmove : r.grammar.isA .move t = false := isA_of_opening hr hkind htext (by decide)
  have hnop : r.grammar.isA .nop t = false := isA_of_opening hr hkind htext (by decide)
  have hbegin : r.grammar.isA .permutationBegin t = true := by
    rw [isA_opening hr hkind htext]
    rfl
  have hsupports : r.grammar.terms.supports .permutation = true := by
    rw [terms_eq hr]
    exact Notation.supports_permutation h
  have hmacro := macros_contains_of_opening hr htext hnames
  have hsign := signOf?_of_opening hr hkind htext
  have hopened := openedBy_of_opening hr hkind htext
  have hstart : r.statementStart? t = some .bracket := by
    simp [statementStart?, hkeyword, hmove, hnop, hmacro, hsign]
  have hopens : r.opensCycle t ts =
      (r.grammar.symbols (r.peek ts)).any fun s => s.isPartOf .permutation := by
    simp [opensCycle, hbegin, hsupports, hopened]
  rw [readStatement_cons, hstart]
  dsimp only
  rw [hopens, hopened, if_neg (c := [CompoundKind.grouping].isEmpty = true) Bool.false_ne_true]
  split
  · rfl
  · rfl

end Opening

end Reading

end CubeLang
