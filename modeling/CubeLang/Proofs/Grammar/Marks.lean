import CubeLang.Proofs.Grammar.ExpressionRelocation
import CubeLang.Proofs.Grammar.Opening

/-!
# Marks that close or part scripts

In the built-in notation a closing bracket or a comma begins no expression and is no affix, whatever
macros there are. So the tokens that close or part a statement in brackets can be told from those
of the scripts inside, and a closing bracket stops what stands in front of it.
-/

set_option autoImplicit false

namespace CubeLang

namespace Reading

variable {r : Reading} {t : Token} {ts : List Token} {s : Symbol}
variable {n : Nat} {h : 2 ≤ n} {f : Fixity} {macros : Table String String} {m : Memory}

/-- The tokens that close or part scripts in the built-in notation. -/
def marks : List String := [")", "]", ","]

/-- Whether a token is one of those that close or part scripts. -/
def IsMark (t : Token) : Prop := t.kind = .keyword ∧ t.text ∈ marks

section BuiltIn

variable (hr : r.grammar = Grammar.builtIn n h f macros)
include hr

/-- The symbols of the tokens that close or part scripts. -/
def markSymbols : List Symbol :=
  [.permutationEnd, .permutationDelimiter, .groupingEnd, .commutationEnd, .commutationDelimiter]

theorem mem_markSymbols_of_mem_symbols (ht : IsMark t) (hs : s ∈ r.grammar.symbols t) :
    s ∈ markSymbols := by
  have hcapital : ∀ text ∈ marks, ¬Notation.Capital text := by decide
  have hsymbols : ∀ b ∈ Notation.defaultTokens, b.2 ∈ marks → b.1 ∈ markSymbols := by decide
  have hmem := ((mem_symbols_iff hr (hcapital _ ht.2)).mp hs).2
  exact hsymbols _ (List.mem_filter.mp hmem).1 ht.2

theorem isA_of_mark (ht : IsMark t) (hs : s ∉ markSymbols) : r.grammar.isA s t = false := by
  rw [Bool.eq_false_iff, ne_eq, Grammar.isA, List.contains_iff_mem]
  exact fun hmem => hs (mem_markSymbols_of_mem_symbols hr ht hmem)

theorem signOf?_of_mark (ht : IsMark t) : r.signOf? t = none := by
  have hsigns : ∀ s ∈ markSymbols, ¬Symbol.signs.contains s = true := by decide
  exact List.find?_eq_none.mpr fun s hs => hsigns s (mem_markSymbols_of_mem_symbols hr ht hs)

theorem readAffix?_of_mark {place : Fixity} {inner : Inner (t :: ts).length} (ht : IsMark t) :
    r.readAffix? place (t :: ts) inner m = .ok none m := by
  have hopenings : ∀ k : BinaryKind, k.opening ∉ markSymbols := by
    intro k
    cases k <;> decide
  exact readAffix?_eq_none ht.1 (fun k => isA_of_mark hr ht (hopenings k))
    (isA_of_mark hr ht (by decide)) (isA_of_mark hr ht (by decide))
    (isA_of_mark hr ht (by decide))

/-- A mark stops what stands in front of it. -/
theorem stops_of_mark (ht : IsMark t) : r.Stops [t] where
  sign := by simpa using fun _ => signOf?_of_mark hr ht
  countEnd := by simp [Grammar.isOnly, isA_of_mark hr ht (s := .repetitionEnd) (by decide)]
  infixed := by simpa using infixOf?_of_builtIn hr t
  affix := fun length inner m => by
    have hr' : (r.resized length).grammar = Grammar.builtIn n h f macros := hr
    exact readAffix?_of_mark hr' ht

/-- Of the ways to combine scripts only the commutation has brackets. -/
theorem bracketed_binary (k : BinaryKind) :
    r.bracketed (.binary k) = decide (k = .commutation) := by
  rw [bracketed, fixity_binary hr, decide_eq_decide]
  cases k <;> decide

theorem isMark_of_isA (hs : s ≠ .move) (htext : ∀ b ∈ Notation.defaultTokens, b.1 = s → b.2 ∈ marks)
    (ht : r.grammar.isA s t = true) : IsMark t := by
  obtain ⟨hkind, hmem⟩ := mem_defaultTokens_of_isA hr hs ht
  exact ⟨hkind, htext _ hmem rfl⟩

theorem isMark_of_closedBy (ht : r.closedBy t ≠ []) : IsMark t := by
  obtain ⟨k, hk⟩ := List.exists_mem_of_ne_nil _ ht
  obtain ⟨hbracketed, hclosing⟩ := (Bool.and_eq_true ..).mp (List.mem_filter.mp hk).2
  cases k with
  | binary k =>
    rw [bracketed_binary hr, decide_eq_true_eq] at hbracketed
    subst hbracketed
    exact isMark_of_isA hr (by decide) (by decide) hclosing
  | _ => exact isMark_of_isA hr (by decide) (by decide) hclosing

theorem isMark_of_dividedBy (ht : r.dividedBy t ≠ []) : IsMark t := by
  obtain ⟨k, hk⟩ := List.exists_mem_of_ne_nil _ ht
  have hk := (List.mem_filter.mp hk).2
  cases k with
  | binary k =>
    obtain ⟨hbracketed, hdelimiter⟩ := (Bool.and_eq_true ..).mp hk
    rw [bracketed_binary hr, decide_eq_true_eq] at hbracketed
    subst hbracketed
    exact isMark_of_isA hr (by decide) (by decide) hdelimiter
  | _ => contradiction

variable (hnames : ∀ name ∈ macros.keys, Groupable name)
include hnames

theorem macros_contains_of_mark (ht : IsMark t) : r.grammar.macros.contains t.text = false := by
  have hmacros : r.grammar.macros = macros := by
    rw [hr]
    rfl
  rw [hmacros, Bool.eq_false_iff]
  intro hcontains
  exact (hnames _ (Table.contains_iff_mem_keys.mp hcontains)).not_mark ht.2

theorem readStatement_of_mark {inner : Inner (t :: ts).length} (ht : IsMark t) :
    r.readStatement (t :: ts) inner m = .error (.ofToken .illegalStatement t) m := by
  have hkeyword : t.isKeyword = true := decide_eq_true ht.1
  have hopenings : ∀ k : CompoundKind, k.opening ∉ markSymbols := by
    intro k
    cases k with
    | binary k => cases k <;> decide
    | _ => decide
  have hopened : r.openedBy t = [] := by
    rw [openedBy, List.filter_eq_nil_iff]
    intro k _
    simp [isA_of_mark hr ht (hopenings k)]
  have hmove : r.grammar.isA .move t = false := isA_of_mark hr ht (by decide)
  have hnop : r.grammar.isA .nop t = false := isA_of_mark hr ht (by decide)
  have hbegin : r.grammar.isA .permutationBegin t = false := isA_of_mark hr ht (by decide)
  have hstart : r.statementStart? t = some .bracket := by
    simp [statementStart?, hkeyword, hmove, hnop, macros_contains_of_mark hr hnames ht,
      signOf?_of_mark hr ht]
  have hopens : r.opensCycle t ts = false := by simp [opensCycle, hbegin]
  rw [readStatement_cons, hstart]
  dsimp only
  rw [if_neg (by simp [hopens]), if_pos (by simp [hopened])]
  rfl

theorem readExpression_of_mark (ht : IsMark t) :
    r.readExpression (t :: ts) m = .error (.ofToken .illegalStatement t) m :=
  readExpression_of_error (fun _ => readAffix?_of_mark hr ht)
    (readStatement_of_mark hr hnames ht)

end BuiltIn

end Reading

end CubeLang
