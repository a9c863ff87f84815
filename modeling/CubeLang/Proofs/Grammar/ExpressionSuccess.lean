import CubeLang.Proofs.Grammar.AffixSuccess

/-!
# Scripts that are read

Statements, expressions and whole texts that are read, as relations that say how. The recursion of the
readers is closed here: what is read inside of an expression is an expression of less tokens.
-/

set_option autoImplicit false

namespace CubeLang.Reading

variable {r : Reading} {t : Token} {ts rest : List Token} {m m' : Memory}

section

variable {inside : Expressions} {bound : Nat} {inner : Inner bound} (hinner : inner.ReadsAs inside)

/-! ## Compound statements -/

/-- What is read as the rest of a compound statement: scripts and perhaps a delimiter among them, up to
the token that closes it. -/
inductive ReadsCompound (r : Reading) (inside : Expressions) (start : Nat) :
    Compound → List Token → Memory → Script → List Token → Memory → Prop
  | closed {c : Compound} {t : Token} {ts : List Token} {m : Memory} {s : Script}
      (hcloses : r.closedBy t ≠ [])
      (hclose : Compound.close { c with kinds := c.kinds.filter fun k => (r.closedBy t).contains k }
        start t = .ok s) : ReadsCompound r inside start c (t :: ts) m s ts m
  | divided {c : Compound} {t : Token} {ts rest : List Token} {m m' : Memory} {s : Script}
      (hcloses : r.closedBy t = []) (hdivides : r.dividedBy t ≠ [])
      (hkinds : (c.kinds.filter fun k => (r.dividedBy t).contains k) ≠ [])
      (hsecond : c.second = none)
      (hothers : ReadsCompound r inside start
        { c with
          kinds := c.kinds.filter fun k => (r.dividedBy t).contains k
          second := some (t.span, []) } ts m s rest m') :
      ReadsCompound r inside start c (t :: ts) m s rest m'
  | script {c : Compound} {t : Token} {ts behind rest : List Token} {m m₁ m' : Memory} {s s' : Script}
      (hcloses : r.closedBy t = []) (hdivides : r.dividedBy t = [])
      (hfirst : inside (t :: ts) m s behind m₁)
      (hothers : ReadsCompound r inside start (c.push s) behind m₁ s' rest m') :
      ReadsCompound r inside start c (t :: ts) m s' rest m'

/-- A compound statement is not complete without the token that closes it. -/
theorem ReadsCompound.ne_nil {start : Nat} {c : Compound} {s : Script}
    (h : r.ReadsCompound inside start c ts m s rest m') : ts ≠ [] := by
  cases h <;> exact List.cons_ne_nil _ _

include hinner

theorem ReadsCompound.of_reads {start : Nat} {c : Compound} {ts rest : List Token} {m m' : Memory}
    {s : Script} {h : ts.length < bound}
    (hread : Reads (r.readCompound inner start c ts h) m s rest m') :
    r.ReadsCompound inside start c ts m s rest m' := by
  cases ts with
  | nil =>
    rw [readCompound] at hread
    exact absurd hread not_reads_throw
  | cons t ts =>
    rw [readCompound] at hread
    dsimp only at hread
    by_cases hcloses : r.closedBy t = []
    · rw [if_neg (by simp [hcloses])] at hread
      by_cases hdivides : r.dividedBy t = []
      · rw [if_neg (by simp [hdivides])] at hread
        obtain ⟨s', behind, m₁, hfirst, hread⟩ := reads_bind_iff.mp hread
        have hshort := hfirst.shorter
        exact .script hcloses hdivides ((hinner ..).mp hfirst) (of_reads ((reads_widen_iff _).mp hread))
      · rw [if_pos (by simp [hdivides])] at hread
        split at hread
        · exact absurd hread not_reads_throw
        rename_i hkinds
        split at hread
        · exact absurd hread not_reads_throw
        rename_i hsecond
        exact .divided hcloses hdivides (by simpa using hkinds) (by simpa using hsecond)
          (of_reads ((reads_widen_iff _).mp hread))
    · rw [if_pos (by simp [hcloses])] at hread
      obtain ⟨hlt, hread⟩ := hread
      obtain ⟨s', _, hlifted, hread⟩ := exists_of_bind_eq_ok hread
      obtain ⟨hclose, rfl⟩ := eq_ok_of_lift hlifted
      obtain ⟨rfl, rfl, rfl⟩ := reads_pure_iff.mp ⟨hlt, hread⟩
      exact .closed hcloses hclose
termination_by ts.length

theorem ReadsCompound.reads {start : Nat} {c : Compound} {s : Script}
    (hread : r.ReadsCompound inside start c ts m s rest m') (h : ts.length < bound) :
    Reads (r.readCompound inner start c ts h) m s rest m' := by
  induction hread with
  | closed hcloses hclose =>
    refine ⟨Nat.lt_succ_self _, ?_⟩
    rw [readCompound]
    dsimp only
    rw [if_pos (by simp [hcloses])]
    exact bind_of_ok (lift_of_ok hclose)
  | divided hcloses hdivides hkinds hsecond _ ih =>
    rw [readCompound]
    dsimp only
    rw [if_neg (by simp [hcloses]), if_pos (by simp [hdivides]), if_neg (by simpa using hkinds),
      if_neg (by simp [hsecond])]
    exact (reads_widen_iff _).mpr (ih _)
  | script hcloses hdivides hfirst _ ih =>
    have hfirst := (hinner _ h _ _ _ _).mpr hfirst
    rw [readCompound]
    dsimp only
    rw [if_neg (by simp [hcloses]), if_neg (by simp [hdivides])]
    exact reads_bind_iff.mpr
      ⟨_, _, _, hfirst, (reads_widen_iff _).mpr (ih (Nat.lt_trans hfirst.shorter h))⟩

/-! ## Statements -/

omit hinner

/-- What is read as a statement. -/
inductive ReadsStatement (r : Reading) (inside : Expressions) :
    List Token → Memory → Script → List Token → Memory → Prop
  | move {t : Token} {ts : List Token} {m : Memory} {move : Move}
      (hstart : r.statementStart? t = some (.move move)) :
      ReadsStatement r inside (t :: ts) m (.move t.span move) ts m
  | macroUse {t : Token} {ts : List Token} {m m' : Memory} {body : Script}
      (hstart : r.statementStart? t = some .macroUse) (hbody : r.expand t m = .ok body m') :
      ReadsStatement r inside (t :: ts) m (.macroUse t.span t.text body) ts m'
  | nop {t : Token} {ts : List Token} {m : Memory} (hstart : r.statementStart? t = some .nop) :
      ReadsStatement r inside (t :: ts) m (.nop t.span) ts m
  | signedCycle {t t' : Token} {ts rest : List Token} {m : Memory} {s : Script}
      (hstart : r.statementStart? t = some .sign) (hbegin : r.grammar.isA .permutationBegin t' = true)
      (hcycle : r.ReadsPermutation t.start (some t) ts s rest) :
      ReadsStatement r inside (t :: t' :: ts) m s rest m
  | cycle {t : Token} {ts rest : List Token} {m : Memory} {s : Script}
      (hstart : r.statementStart? t = some .bracket) (hopens : r.opensCycle t ts = true)
      (hcycle : r.ReadsPermutation t.start none ts s rest) :
      ReadsStatement r inside (t :: ts) m s rest m
  | compound {t : Token} {ts rest : List Token} {m m' : Memory} {s : Script}
      (hstart : r.statementStart? t = some .bracket) (hopens : r.opensCycle t ts = false)
      (hopened : r.openedBy t ≠ [])
      (hcompound : r.ReadsCompound inside t.start { kinds := r.openedBy t } ts m s rest m') :
      ReadsStatement r inside (t :: ts) m s rest m'

variable {s : Script}

theorem ReadsStatement.of_reads {inner : Inner ts.length} (hinner : inner.ReadsAs inside)
    (hread : Reads (r.readStatement ts inner) m s rest m') :
    r.ReadsStatement inside ts m s rest m' := by
  cases ts with
  | nil => exact absurd hread not_reads_throw
  | cons t ts =>
    rw [readStatement_cons] at hread
    cases hstart : r.statementStart? t with
    | none =>
      rw [hstart] at hread
      exact absurd hread not_reads_throw
    | some start =>
      rw [hstart] at hread
      cases start with
      | move move =>
        obtain ⟨rfl, rfl, rfl⟩ := reads_pure_iff.mp hread
        exact .move hstart
      | macroUse =>
        obtain ⟨hlt, hread⟩ := hread
        obtain ⟨body, m₁, hbody, hread⟩ := exists_of_bind_eq_ok hread
        obtain ⟨rfl, rfl, rfl⟩ := reads_pure_iff.mp ⟨hlt, hread⟩
        exact .macroUse hstart hbody
      | nop =>
        obtain ⟨rfl, rfl, rfl⟩ := reads_pure_iff.mp hread
        exact .nop hstart
      | sign =>
        dsimp only at hread
        split at hread
        · exact absurd hread not_reads_throw
        rename_i hbegin
        have hbegin : r.grammar.isA .permutationBegin (r.peek ts) = true := by simpa using hbegin
        obtain ⟨t', ts, rfl⟩ := eq_cons_of_isA hbegin
        obtain ⟨hcycle, rfl⟩ := reads_lift_iff.mp ((reads_widen_iff _).mp hread)
        exact .signedCycle hstart hbegin (gives_readPermutation_iff.mp hcycle)
      | bracket =>
        dsimp only at hread
        split at hread
        · rename_i hopens
          obtain ⟨hcycle, rfl⟩ := reads_lift_iff.mp ((reads_widen_iff _).mp hread)
          exact .cycle hstart hopens (gives_readPermutation_iff.mp hcycle)
        rename_i hopens
        split at hread
        · exact absurd hread not_reads_throw
        rename_i hopened
        exact .compound hstart (by simpa using hopens) (by simpa using hopened)
          (.of_reads hinner ((reads_widen_iff _).mp hread))

theorem ReadsStatement.reads (hread : r.ReadsStatement inside ts m s rest m') {inner : Inner ts.length}
    (hinner : inner.ReadsAs inside) : Reads (r.readStatement ts inner) m s rest m' := by
  cases hread with
  | move hstart | nop hstart =>
    rw [readStatement_cons, hstart]
    exact reads_pure_iff.mpr ⟨rfl, rfl, rfl⟩
  | macroUse hstart hbody =>
    refine ⟨Nat.lt_succ_self _, ?_⟩
    rw [readStatement_cons, hstart]
    exact bind_of_ok hbody
  | signedCycle hstart hbegin hcycle =>
    rw [readStatement_cons, hstart]
    dsimp only
    rw [if_neg (by simpa using hbegin)]
    exact (reads_widen_iff _).mpr (reads_lift_iff.mpr ⟨gives_readPermutation_iff.mpr hcycle, rfl⟩)
  | cycle hstart hopens hcycle =>
    rw [readStatement_cons, hstart]
    dsimp only
    rw [if_pos hopens]
    exact (reads_widen_iff _).mpr (reads_lift_iff.mpr ⟨gives_readPermutation_iff.mpr hcycle, rfl⟩)
  | compound hstart hopens hopened hcompound =>
    rw [readStatement_cons, hstart]
    dsimp only
    rw [if_neg (by simp [hopens]), if_neg (by simpa using hopened)]
    exact (reads_widen_iff _).mpr (hcompound.reads hinner _)

/-! ## Expressions -/

/-- What is read as a statement with its affixes. -/
inductive ReadsConstruct (r : Reading) (inside : Expressions) :
    List Token → Memory → Script → List Token → Memory → Prop
  | intro {ts behind behind' rest : List Token} {m m₁ m₂ m' : Memory} {affixes : List Affix}
      {s s' : Script} (hprefixes : r.ReadsPrefixes inside ts m affixes behind m₁)
      (hstatement : r.ReadsStatement inside behind m₁ s behind' m₂)
      (hsuffixes : r.ReadsSuffixes inside (affixes.foldr Affix.wrap s) behind' m₂ s' rest m') :
      ReadsConstruct r inside ts m s' rest m'

/-- Behind a statement with its affixes no further affix begins. -/
theorem ReadsConstruct.noAffix (h : r.ReadsConstruct inside ts m s rest m') :
    r.NoAffix .suffixed rest := by
  obtain ⟨-, -, hsuffixes⟩ := h
  exact hsuffixes.noAffix

/-- What is read as an expression: a statement with its affixes, and perhaps an operator behind it with
a further expression. -/
inductive ReadsExpression (r : Reading) (inside : Expressions) :
    List Token → Memory → Script → List Token → Memory → Prop
  | single {ts rest : List Token} {m m' : Memory} {s : Script}
      (hconstruct : r.ReadsConstruct inside ts m s rest m') (hend : r.infixOf? (r.peek rest) = none) :
      ReadsExpression r inside ts m s rest m'
  | combined {ts behind rest : List Token} {t : Token} {m m₁ m' : Memory} {s s' : Script}
      {k : BinaryKind} {f : Fixity} (hconstruct : r.ReadsConstruct inside ts m s (t :: behind) m₁)
      (hoperator : r.infixOf? t = some (k, f)) (hother : inside behind m₁ s' rest m') :
      ReadsExpression r inside ts m
        (if f = .infixedFirst then k.combine ⟨s.span.start, s'.span.stop⟩ s s'
          else k.combine ⟨s.span.start, s'.span.stop⟩ s' s) rest m'

theorem ReadsConstruct.of_reads {inner : Inner ts.length} (hinner : inner.ReadsAs inside)
    (hread : Reads (r.readConstruct ts inner) m s rest m') :
    r.ReadsConstruct inside ts m s rest m' := by
  unfold readConstruct at hread
  obtain ⟨affixes, behind, m₁, hprefixes, hread⟩ := reads_bind_iff.mp hread
  obtain ⟨s₀, behind', m₂, hstatement, hread⟩ := reads_bind_iff.mp hread
  exact .intro (.of_reads hinner hprefixes) (.of_reads (hinner.restrict _) hstatement)
    (.of_reads hinner ((reads_widen_iff _).mp hread))

theorem ReadsConstruct.reads (hread : r.ReadsConstruct inside ts m s rest m') {inner : Inner ts.length}
    (hinner : inner.ReadsAs inside) : Reads (r.readConstruct ts inner) m s rest m' := by
  obtain ⟨hprefixes, hstatement, hsuffixes⟩ := hread
  have hprefixes := hprefixes.reads hinner (length_le_self ts)
  have hstatement := hstatement.reads (hinner.restrict (Nat.le_of_lt_succ hprefixes.shorter))
  have hsuffixes := hsuffixes.reads hinner
    (Nat.le_trans (Nat.le_of_lt hstatement.shorter) (Nat.le_of_lt_succ hprefixes.shorter))
  unfold readConstruct
  exact reads_bind_iff.mpr ⟨_, _, _, hprefixes, reads_bind_iff.mpr
    ⟨_, _, _, hstatement, (reads_widen_iff _).mpr hsuffixes⟩⟩

/-- The expressions of a reading that are made of less than so many tokens and those behind them. -/
def within (r : Reading) (bound : Nat) : Expressions := fun ts m s rest m' =>
  ts.length < bound ∧ r.expressions ts m s rest m'

end

section

variable {s : Script}

theorem ReadsExpression.of_reads (hread : r.expressions ts m s rest m') :
    r.ReadsExpression (r.within ts.length) ts m s rest m' := by
  have hinner : Inner.ReadsAs (fun ts' (_ : ts'.length < ts.length) => r.readExpression ts')
      (r.within ts.length) := fun ts' h _ _ _ _ => ⟨fun hread => ⟨h, hread⟩, And.right⟩
  obtain ⟨hlt, hread⟩ := hread
  obtain ⟨⟨s₀, behind, hshort⟩, m₁, hfirst, -⟩ := exists_of_bind_eq_ok (readExpression.eq_1 .. ▸ hread)
  have hconstruct := ReadsConstruct.of_reads hinner ⟨hshort, hfirst⟩
  cases hoperator : r.infixOf? (r.peek behind) with
  | none =>
    rw [readExpression_of_end hfirst hoperator] at hread
    obtain ⟨rfl, rfl, rfl⟩ := reads_pure_iff.mp ⟨hlt, hread⟩
    exact .single hconstruct hoperator
  | some e =>
    obtain ⟨k, f⟩ := e
    rw [readExpression_of_operator hfirst hoperator] at hread
    cases behind with
    | nil =>
      rw [infixOf?_peek_nil] at hoperator
      contradiction
    | cons t behind =>
      obtain ⟨s', rest', m₂, hother, hread⟩ := reads_bind_iff.mp ⟨hlt, hread⟩
      obtain ⟨rfl, rfl, rfl⟩ := reads_pure_iff.mp hread
      exact .combined hconstruct hoperator ⟨Nat.lt_trans (Nat.lt_succ_self _) hshort, hother⟩

theorem ReadsExpression.reads (hread : r.ReadsExpression r.expressions ts m s rest m') :
    r.expressions ts m s rest m' := by
  have hinner := r.readsAs_expressions ts.length
  cases hread with
  | single hconstruct hend =>
    obtain ⟨hlt, hconstruct⟩ := hconstruct.reads hinner
    exact ⟨hlt, readExpression_of_end hconstruct hend⟩
  | combined hconstruct hoperator hother =>
    obtain ⟨hlt, hconstruct⟩ := hconstruct.reads hinner
    obtain ⟨hlt', hother⟩ := hother
    refine ⟨by rw [List.length_cons] at hlt; omega, ?_⟩
    rw [readExpression_of_operator hconstruct hoperator]
    exact bind_of_ok hother

/-- **What holds of all that is read as an expression** holds of an expression if it holds of those
inside of it and behind its operator. -/
theorem expressions_induction {P : Expressions}
    (step : ∀ inside : Expressions, (∀ ts m s rest m', inside ts m s rest m' →
        r.expressions ts m s rest m' ∧ P ts m s rest m') →
      ∀ ts m s rest m', r.ReadsExpression inside ts m s rest m' → P ts m s rest m')
    {ts rest : List Token} {m m' : Memory} {s : Script} (hread : r.expressions ts m s rest m') :
    P ts m s rest m' := by
  refine step (r.within ts.length) (fun ts' _ _ _ _ hinside => ?_) _ _ _ _ _ (.of_reads hread)
  obtain ⟨hlt, hread'⟩ := hinside
  exact ⟨hread', expressions_induction step hread'⟩
termination_by ts.length

end

/-- What is read as a text: expressions up to its end. -/
inductive ReadsAll (r : Reading) : List Token → Memory → List Script → Memory → Prop
  | nil {m : Memory} : ReadsAll r [] m [] m
  | cons {ts rest : List Token} {m m₁ m' : Memory} {s : Script} {scripts : List Script}
      (hfirst : r.expressions ts m s rest m₁) (hothers : ReadsAll r rest m₁ scripts m') :
      ReadsAll r ts m (s :: scripts) m'

theorem ReadsAll.of_readAll {ts : List Token} {scripts : List Script} {m m' : Memory}
    (hread : r.readAll ts m = .ok scripts m') : r.ReadsAll ts m scripts m' := by
  cases ts with
  | nil =>
    rw [readAll_nil] at hread
    obtain ⟨rfl, rfl⟩ := EStateM.Result.ok.inj hread
    exact .nil
  | cons t ts =>
    rw [readAll] at hread
    obtain ⟨⟨s, rest, hlt⟩, m₁, hfirst, hread⟩ := exists_of_bind_eq_ok hread
    obtain ⟨others, m₂, hothers, hread⟩ := exists_of_bind_eq_ok hread
    obtain ⟨rfl, rfl⟩ := EStateM.Result.ok.inj hread
    exact .cons ⟨hlt, hfirst⟩ (of_readAll hothers)
termination_by ts.length

theorem ReadsAll.readAll {scripts : List Script} (hread : r.ReadsAll ts m scripts m') :
    r.readAll ts m = .ok scripts m' := by
  induction hread with
  | nil => exact readAll_nil
  | cons hfirst _ ih =>
    obtain ⟨hlt, hfirst⟩ := hfirst
    obtain ⟨t, ts, rfl⟩ := List.exists_cons_of_length_pos (Nat.zero_lt_of_lt hlt)
    exact readAll_of_readExpression hfirst ih

end CubeLang.Reading
