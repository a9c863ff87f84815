import CubeLang.Grammar.Expression
import CubeLang.Proofs.Grammar.FirstToken

/-!
# Expressions without affixes

A statement with no affix in front of it or behind it and with no operator behind it is an
expression, and what goes wrong in the statement goes wrong in the expression. A script is read
expression by expression.
-/

set_option autoImplicit false

namespace CubeLang.Reading

variable {r : Reading} {t : Token} {ts rest : List Token} {m m' : Memory}

/-! ## Affixes -/

/-- Behind no opening bracket and in front of no closing one, a token begins no affix. -/
theorem readAffix?_eq_none {place : Fixity} {inner : Inner (t :: ts).length}
    (hkind : t.kind = .keyword) (hopening : ∀ k : BinaryKind, r.grammar.isA k.opening t = false)
    (hinversion : r.grammar.isA .inversionOperator t = false)
    (hrepetition : r.grammar.isA .repetitionBegin t = false)
    (hreflection : r.grammar.isA .reflectionOperator t = false) :
    r.readAffix? place (t :: ts) inner m = .ok none m := by
  have hnone : r.affixStart? place t = none := by
    simp [affixStart?, hkind, hopening, hinversion, hrepetition, hreflection]
  rw [readAffix?_cons, hnone]
  rfl

theorem readPrefixes_of_none {bound : Nat} {inner : Inner bound} {hbound : ts.length ≤ bound}
    (hnone : r.readAffix? .prefixed ts (inner.restrict hbound) m = .ok none m) :
    r.readPrefixes inner ts hbound m = .ok ⟨[], ts, Nat.lt_succ_self _⟩ m := by
  rw [readPrefixes, bind_of_ok hnone]
  rfl

theorem readSuffixes_of_none {bound : Nat} {inner : Inner bound} {hbound : ts.length ≤ bound}
    (script : Script) (hnone : r.readAffix? .suffixed ts (inner.restrict hbound) m = .ok none m) :
    r.readSuffixes inner script ts hbound m = .ok ⟨script, ts, Nat.lt_succ_self _⟩ m := by
  rw [readSuffixes, bind_of_ok hnone]
  rfl

/-- An affix behind a script goes around it, and further ones around both. -/
theorem readSuffixes_of_some {bound : Nat} {inner : Inner bound} {hbound : ts.length ≤ bound}
    {script script' : Script} {a : Affix} {rest' : List Token} {m'' : Memory}
    {hlt : rest.length < ts.length} {hrest : rest.length ≤ bound} {hlt'}
    (hread : r.readAffix? .suffixed ts (inner.restrict hbound) m = .ok (some ⟨a, rest, hlt⟩) m')
    (hsuffixes : r.readSuffixes inner (a.wrap script) rest hrest m' = .ok ⟨script', rest', hlt'⟩ m'') :
    ∃ hlt'', r.readSuffixes inner script ts hbound m = .ok ⟨script', rest', hlt''⟩ m'' := by
  refine ⟨by omega, ?_⟩
  rw [readSuffixes, bind_of_ok hread]
  exact (bind_of_ok hsuffixes).trans rfl

/-! ## Expressions -/

theorem infixOf?_peek_nil (r : Reading) : r.infixOf? (r.peek []) = none := by
  have hnothing : ∀ s, r.grammar.isA s (r.peek []) = false := fun _ => rfl
  simp [infixOf?, hnothing]

section

variable {s : Script} {hlt : rest.length < ts.length}

/-- An expression ends where no operator follows. -/
theorem readExpression_of_end
    (hconstruct : r.readConstruct ts (fun ts' _ => r.readExpression ts') m = .ok ⟨s, rest, hlt⟩ m')
    (hoperator : r.infixOf? (r.peek rest) = none) :
    r.readExpression ts m = .ok ⟨s, rest, hlt⟩ m' := by
  rw [readExpression, bind_of_ok hconstruct]
  show _ = (pure ⟨s, rest, hlt⟩ : Reader (Parsed ts.length Script)) m'
  apply congrFun
  dsimp only
  split
  · rfl
  · rename_i hoperator'
    rw [hoperator] at hoperator'
    contradiction

/-- An operator behind a statement combines it with the next expression. -/
theorem readExpression_of_operator {k : BinaryKind} {g : Fixity}
    (hconstruct : r.readConstruct ts (fun ts' _ => r.readExpression ts') m = .ok ⟨s, rest, hlt⟩ m')
    (hoperator : r.infixOf? (r.peek rest) = some (k, g)) :
    r.readExpression ts m = (do
      let other ← r.readExpression rest.tail
      let span : Span := ⟨s.span.start, other.value.span.stop⟩
      return ⟨if g = .infixedFirst then k.combine span s other.value
        else k.combine span other.value s, other.rest,
        Nat.lt_trans (Nat.lt_of_lt_of_le other.shorter (length_tail_le_self rest)) hlt⟩ :
          Reader (Parsed ts.length Script)) m' := by
  rw [readExpression, bind_of_ok hconstruct]
  apply congrFun
  dsimp only
  split
  · rename_i hoperator'
    rw [hoperator] at hoperator'
    contradiction
  · rename_i k' g' hoperator'
    obtain ⟨rfl, rfl⟩ := Prod.mk.inj (Option.some.inj (hoperator.symm.trans hoperator'))
    rfl

end

/-- A statement with the affixes behind it, and without an operator behind these, is an expression. -/
theorem readExpression_of_readSuffixes {script script' : Script} {behind rest : List Token}
    {m' m'' : Memory} {hlt : behind.length < ts.length} {hrest}
    (hfront : ∀ inner, r.readAffix? .prefixed ts inner m = .ok none m)
    (hstatement : r.readStatement ts (fun ts' _ => r.readExpression ts') m =
      .ok ⟨script, behind, hlt⟩ m')
    (hsuffixes : ∀ (inner : Inner ts.length) (hbound : behind.length ≤ ts.length),
      r.readSuffixes inner script behind hbound m' = .ok ⟨script', rest, hrest⟩ m'')
    (hoperator : r.infixOf? (r.peek rest) = none) :
    ∃ hlt, r.readExpression ts m = .ok ⟨script', rest, hlt⟩ m'' := by
  refine ⟨by omega, readExpression_of_end ?_ hoperator⟩
  unfold readConstruct
  rw [bind_of_ok (readPrefixes_of_none (hfront _))]
  refine (bind_of_ok hstatement).trans ?_
  exact (bind_of_ok (hsuffixes _ _)).trans rfl

/-- A statement without affixes and without an operator behind it is an expression. -/
theorem readExpression_of_readStatement {script : Script} {rest : List Token} {m' : Memory}
    {hlt : rest.length < ts.length}
    (hfront : ∀ inner, r.readAffix? .prefixed ts inner m = .ok none m)
    (hstatement : r.readStatement ts (fun ts' _ => r.readExpression ts') m =
      .ok ⟨script, rest, hlt⟩ m')
    (hsuffix : ∀ inner, r.readAffix? .suffixed rest inner m' = .ok none m')
    (hoperator : r.infixOf? (r.peek rest) = none) :
    r.readExpression ts m = .ok ⟨script, rest, hlt⟩ m' := by
  obtain ⟨_, hread⟩ := readExpression_of_readSuffixes hfront hstatement
    (fun _ _ => readSuffixes_of_none script (hsuffix _)) hoperator
  exact hread

/-- An error in a statement is an error in the expression. -/
theorem readExpression_of_error {e : ParseError} {m' : Memory}
    (hfront : ∀ inner, r.readAffix? .prefixed ts inner m = .ok none m)
    (hstatement : r.readStatement ts (fun ts' _ => r.readExpression ts') m = .error e m') :
    r.readExpression ts m = .error e m' := by
  rw [readExpression]
  apply bind_of_error
  unfold readConstruct
  rw [bind_of_ok (readPrefixes_of_none (hfront _))]
  exact bind_of_error hstatement

/-! ## Scripts -/

theorem readAll_nil : r.readAll [] m = .ok [] m := by
  rw [readAll]
  rfl

/-- A script is an expression and the script behind it. -/
theorem readAll_of_readExpression {script : Script} {scripts : List Script} {m'' : Memory} {hlt}
    (hread : r.readExpression (t :: ts) m = .ok ⟨script, rest, hlt⟩ m')
    (hrest : r.readAll rest m' = .ok scripts m'') :
    r.readAll (t :: ts) m = .ok (script :: scripts) m'' := by
  rw [readAll, bind_of_ok hread]
  exact (bind_of_ok hrest).trans rfl

theorem readAll_of_first_error {e : ParseError} (hread : r.readExpression (t :: ts) m = .error e m') :
    r.readAll (t :: ts) m = .error e m' := by
  rw [readAll]
  exact bind_of_error hread

theorem readAll_of_rest_error {script : Script} {e : ParseError} {m'' : Memory} {hlt}
    (hread : r.readExpression (t :: ts) m = .ok ⟨script, rest, hlt⟩ m')
    (hrest : r.readAll rest m' = .error e m'') : r.readAll (t :: ts) m = .error e m'' := by
  rw [readAll, bind_of_ok hread]
  exact bind_of_error hrest

end CubeLang.Reading
