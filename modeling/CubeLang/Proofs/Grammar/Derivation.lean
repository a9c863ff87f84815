import CubeLang.Proofs.Grammar.CycleDerivation
import CubeLang.Proofs.Grammar.ExpressionSuccess

/-!
# The tokens of scripts

The grammar of scripts without the readers: which tokens, one after the other, make which scripts. It
says for every notation what stands where; a notation chooses the brackets and the places of the
operators. Whatever is read has such tokens, and what is left over are the tokens behind them. So no
token is lost, and none is read twice.
-/

set_option autoImplicit false

namespace CubeLang.Reading

/-! ## The grammar -/

/-- The tokens of a repeat count: a number, perhaps between two tokens for that alone. -/
inductive CountTokens (r : Reading) : List Token → Affix → Prop
  | intro {opening closing : Option Token} {number : Token} {value : Int} {count : RepeatCount}
      (hopening : ∀ t ∈ opening, r.grammar.isOnly .repetitionBegin t = true)
      (hvalue : number.value? = some value) (hcount : RepeatCount.ofInt? value = some count)
      (hclosing : ∀ t ∈ closing, r.grammar.isOnly .repetitionEnd t = true) :
      CountTokens r (opening.toList ++ number :: closing.toList)
        ⟨.repetition count, ⟨(opening.getD number).start, (closing.getD number).stop⟩⟩

/-- The tokens of an affix without an operator. -/
inductive AffixTokens (r : Reading) (place : Fixity) : List Token → Affix → Prop
  | repetition {ts : List Token} {a : Affix} (hplace : r.grammar.fixity .repetition = place)
      (hcount : r.CountTokens ts a) : AffixTokens r place ts a
  | inversion {t : Token} (hplace : r.grammar.fixity .inversion = place)
      (hoperator : r.grammar.isA .inversionOperator t = true) :
      AffixTokens r place [t] ⟨.inversion, t.span⟩
  | reflection {t : Token} (hplace : r.grammar.fixity .reflection = place)
      (hoperator : r.grammar.isA .reflectionOperator t = true) :
      AffixTokens r place [t] ⟨.reflection, t.span⟩

/-- Whether a token opens the operator of an affix in some place. Kinds of which some stand in front
and some behind may have an opening token in common. -/
def OpensOperator (r : Reading) (place : Fixity) (k : BinaryKind) (t : Token) : Prop :=
  r.grammar.isA k.opening t = true ∧
    (r.grammar.fixity k.composite = .prefixed ∨ r.grammar.fixity k.composite = .suffixed) ∧
    ∃ k' : BinaryKind, r.grammar.fixity k'.composite = place ∧ r.grammar.isA k'.opening t = true

/-- The tokens of scripts, one after the other. -/
inductive Derives (r : Reading) : List Token → List Script → Prop
  | nil : Derives r [] []
  | append {ts ts' : List Token} {scripts scripts' : List Script} (h : Derives r ts scripts)
      (h' : Derives r ts' scripts') : Derives r (ts ++ ts') (scripts ++ scripts')
  | move {t : Token} {m : Move} (hmove : r.grammar.isA .move t = true)
      (hm : r.grammar.terms.move? t.text = some m) : Derives r [t] [.move t.span m]
  | macroUse {t : Token} {body : Script} {m m' : Memory} (hkeyword : t.isKeyword = true)
      (hknown : r.grammar.macros.contains t.text = true) (hbody : r.expand t m = .ok body m') :
      Derives r [t] [.macroUse t.span t.text body]
  | nop {t : Token} (hnop : r.grammar.isA .nop t = true) : Derives r [t] [.nop t.span]
  | permutation {ts : List Token} {s : Script} (h : r.PermutationTokens ts s) : Derives r ts [s]
  | grouping {t t' : Token} {ts : List Token} {scripts : List Script}
      (hopening : r.grammar.isA .groupingBegin t = true) (h : Derives r ts scripts)
      (hclosing : r.grammar.isA .groupingEnd t' = true) :
      Derives r (t :: ts ++ [t']) [.grouping ⟨t.start, t'.stop⟩ scripts]
  | inversion {t t' : Token} {ts : List Token} {scripts : List Script}
      (hplace : r.grammar.fixity .inversion = .circumfixed)
      (hopening : r.grammar.isA .inversionBegin t = true) (h : Derives r ts scripts)
      (hclosing : r.grammar.isA .inversionEnd t' = true) :
      Derives r (t :: ts ++ [t'])
        [.inversion ⟨t.start, t'.stop⟩ (.sequence ⟨t.start, t'.start⟩ scripts)]
  | reflection {t t' : Token} {ts : List Token} {scripts : List Script}
      (hplace : r.grammar.fixity .reflection = .circumfixed)
      (hopening : r.grammar.isA .reflectionBegin t = true) (h : Derives r ts scripts)
      (hclosing : r.grammar.isA .reflectionEnd t' = true) :
      Derives r (t :: ts ++ [t'])
        [.reflection ⟨t.start, t'.stop⟩ (.sequence ⟨t.start, t'.start⟩ scripts)]
  | divided {k : BinaryKind} {t delimiter t' : Token} {ts ts' : List Token}
      {scripts scripts' : List Script}
      (hplace : r.grammar.fixity k.composite = .precircumfixed)
      (hopening : r.grammar.isA k.opening t = true) (h : Derives r ts scripts)
      (hdelimiter : r.grammar.isA k.delimiter delimiter = true) (h' : Derives r ts' scripts')
      (hclosing : r.grammar.isA k.closing t' = true) :
      Derives r (t :: ts ++ delimiter :: ts' ++ [t'])
        [k.combine ⟨t.start, t'.stop⟩ (.sequence ⟨t.start, delimiter.start⟩ scripts)
          (.sequence ⟨delimiter.stop, t'.start⟩ scripts')]
  | prefixed {ts ts' : List Token} {a : Affix} {s : Script} (ha : r.AffixTokens .prefixed ts a)
      (h : Derives r ts' [s]) : Derives r (ts ++ ts') [a.wrap s]
  | suffixed {ts ts' : List Token} {a : Affix} {s : Script} (h : Derives r ts [s])
      (ha : r.AffixTokens .suffixed ts' a) : Derives r (ts ++ ts') [a.wrap s]
  | operatorInFront {k : BinaryKind} {t t' : Token} {ts ts' : List Token} {scripts : List Script}
      {s : Script} (hopening : r.OpensOperator .prefixed k t) (hne : scripts ≠ [])
      (h : Derives r ts scripts) (hclosing : r.grammar.isA k.closing t' = true)
      (h' : Derives r ts' [s]) :
      Derives r (t :: ts ++ t' :: ts') [(operatorAffix k t t' scripts).wrap s]
  | operatorBehind {k : BinaryKind} {t t' : Token} {ts ts' : List Token} {scripts : List Script}
      {s : Script} (h' : Derives r ts' [s]) (hopening : r.OpensOperator .suffixed k t)
      (hne : scripts ≠ []) (h : Derives r ts scripts)
      (hclosing : r.grammar.isA k.closing t' = true) :
      Derives r (ts' ++ (t :: ts ++ [t'])) [(operatorAffix k t t' scripts).wrap s]
  | infixed {k : BinaryKind} {f : Fixity} {t : Token} {ts ts' : List Token} {s s' : Script}
      (h : Derives r ts [s]) (hoperator : r.infixOf? t = some (k, f)) (h' : Derives r ts' [s']) :
      Derives r (ts ++ t :: ts') [
        if f = .infixedFirst then k.combine ⟨s.span.start, s'.span.stop⟩ s s'
        else k.combine ⟨s.span.start, s'.span.stop⟩ s' s]

variable {r : Reading} {ts rest : List Token} {t : Token} {m m' : Memory} {inside : Expressions}

/-! ## Affixes -/

/-- What is read as a repeat count has the tokens of one. -/
theorem ReadsCount.tokens {a : Affix} (h : r.ReadsCount ts a rest) :
    ∃ us, ts = us ++ rest ∧ r.CountTokens us a := by
  obtain @⟨number, behind, value, count, hinside, hvalue, hcount⟩ := h
  obtain ⟨opening, hopening, htokens, hstart⟩ : ∃ opening : Option Token,
      (∀ t ∈ opening, r.grammar.isOnly .repetitionBegin t = true) ∧
        ts = opening.toList ++ number :: behind ∧ r.peek ts = opening.getD number := by
    unfold countInside at hinside
    split at hinside
    · rename_i hbegin
      cases ts with
      | nil => contradiction
      | cons t ts => exact ⟨some t, by simpa using hbegin, by simp [← hinside], rfl⟩
    · exact ⟨none, by simp, by simpa using hinside, by simp [hinside]⟩
  obtain ⟨closing, hclosing, hbehind, hstop⟩ : ∃ closing : Option Token,
      (∀ t ∈ closing, r.grammar.isOnly .repetitionEnd t = true) ∧
        behind = closing.toList ++ (r.countEnd number behind).2 ∧
        (r.countEnd number behind).1 = (closing.getD number).stop := by
    unfold countEnd
    split
    · rename_i hend
      cases behind with
      | nil => contradiction
      | cons t behind => exact ⟨some t, by simpa using hend, rfl, rfl⟩
    · exact ⟨none, by simp, rfl, rfl⟩
  rw [hstart, hstop]
  refine ⟨opening.toList ++ number :: closing.toList, ?_, .intro hopening hvalue hcount hclosing⟩
  rw [List.append_assoc, List.cons_append, ← hbehind]
  exact htokens

/-- What is read as an expression has the tokens of one. -/
def Expressions.Derives (r : Reading) (inside : Expressions) : Prop :=
  ∀ {ts rest : List Token} {m m' : Memory} {s : Script}, inside ts m s rest m' →
    ∃ us, ts = us ++ rest ∧ r.Derives us [s]

/-- The tokens of an affix, with or without an operator. -/
def AffixDerives (r : Reading) (place : Fixity) (ts : List Token) (a : Affix) : Prop :=
  r.AffixTokens place ts a ∨ ∃ k opening closing us scripts,
    r.OpensOperator place k opening ∧ r.Derives us scripts ∧ scripts ≠ [] ∧
      r.grammar.isA k.closing closing = true ∧ ts = opening :: us ++ [closing] ∧
        a = operatorAffix k opening closing scripts

theorem AffixDerives.prefixed {ts' : List Token} {a : Affix} {s : Script}
    (ha : r.AffixDerives .prefixed ts a) (h : r.Derives ts' [s]) :
    r.Derives (ts ++ ts') [a.wrap s] := by
  rcases ha with ha | ⟨k, opening, closing, us, scripts, hopening, hus, hne, hclosing, rfl, rfl⟩
  · exact .prefixed ha h
  · rw [List.append_assoc]
    exact .operatorInFront hopening hne hus hclosing h

theorem AffixDerives.suffixed {ts' : List Token} {a : Affix} {s : Script}
    (ha : r.AffixDerives .suffixed ts' a) (h : r.Derives ts [s]) :
    r.Derives (ts ++ ts') [a.wrap s] := by
  rcases ha with ha | ⟨k, opening, closing, us, scripts, hopening, hus, hne, hclosing, rfl, rfl⟩
  · exact .suffixed h ha
  · exact .operatorBehind h hopening hne hus hclosing

/-- An affix stops where the last of its tokens does. -/
theorem AffixDerives.exists_last {place : Fixity} {a : Affix} (h : r.AffixDerives place ts a) :
    ∃ front last, ts = front ++ [last] ∧ a.span.stop = last.stop := by
  rcases h with ha | ⟨k, opening, closing, us, scripts, -, -, -, -, rfl, rfl⟩
  · cases ha with
    | repetition _ hcount =>
      obtain @⟨opening, closing, number, -, -, -, -, -, -⟩ := hcount
      cases closing with
      | none => exact ⟨opening.toList, number, rfl, rfl⟩
      | some t =>
        exact ⟨opening.toList ++ [number], t, (List.append_assoc opening.toList [number] [t]).symm, rfl⟩
    | inversion => exact ⟨[], _, rfl, rfl⟩
    | reflection => exact ⟨[], _, rfl, rfl⟩
  · exact ⟨opening :: us, closing, rfl, rfl⟩

section

variable (hinside : inside.Derives r)
include hinside

/-- What is read as an operator is made of scripts up to a closing bracket. -/
theorem ReadsOperator.derives {opening : Token} {kinds : List BinaryKind} {before : List Script}
    {a : Affix} (h : r.ReadsOperator inside opening kinds before ts m a rest m') :
    ∃ us closing scripts, ts = us ++ closing :: rest ∧ r.Derives us scripts ∧ scripts ≠ [] ∧
      ∃ k ∈ kinds, r.grammar.isA k.closing closing = true ∧
        a = operatorAffix k opening closing (before ++ scripts) := by
  induction h with
  | @closed _ _ _ _ _ s closing k hfirst hkind =>
    obtain ⟨us, htokens, hus⟩ := hinside hfirst
    have hclosing : r.grammar.isA k.closing closing = true := by simpa using List.find?_some hkind
    exact ⟨us, closing, [s], htokens, hus, List.cons_ne_nil _ _, k, List.mem_of_find?_eq_some hkind,
      hclosing, rfl⟩
  | @further before _ _ _ _ _ _ s _ _ hfirst _ _ _ ih =>
    obtain ⟨us, rfl, hus⟩ := hinside hfirst
    obtain ⟨us', closing, scripts, htokens, hus', -, k, hk, hclosing, rfl⟩ := ih
    refine ⟨us ++ us', closing, s :: scripts, ?_, hus.append hus', List.cons_ne_nil _ _, k, hk,
      hclosing, ?_⟩
    · rw [htokens, List.append_assoc]
    · rw [List.append_assoc, List.singleton_append]

/-- What is read as an affix has the tokens of one. -/
theorem ReadsAffix.derives {place : Fixity} {a : Affix}
    (h : r.ReadsAffix inside place ts m a rest m') :
    ∃ us, ts = us ++ rest ∧ r.AffixDerives place us a := by
  cases h with
  | count hstart hcount =>
    obtain ⟨us, htokens, hus⟩ := hcount.tokens
    exact ⟨us, htokens, Or.inl (.repetition (known_of_affixStart? hstart) hus)⟩
  | @operator t _ _ _ _ _ kinds hstart hoperator =>
    obtain ⟨hopening, hkinds⟩ := known_of_affixStart? hstart
    obtain ⟨us, closing, scripts, htokens, hus, hne, k, hk, hclosing, hvalue⟩ :=
      hoperator.derives hinside
    obtain ⟨hisA, hplace⟩ := hkinds k hk
    exact ⟨t :: us ++ [closing], by simp [htokens], Or.inr
      ⟨k, t, closing, us, scripts, ⟨hisA, hplace, hopening⟩, hus, hne, hclosing, rfl, hvalue⟩⟩
  | @single t _ _ operation hstart =>
    rcases known_of_affixStart? hstart with ⟨rfl, hplace, hisA⟩ | ⟨rfl, hplace, hisA⟩
    · exact ⟨[t], rfl, Or.inl (.inversion hplace hisA)⟩
    · exact ⟨[t], rfl, Or.inl (.reflection hplace hisA)⟩

/-- The affixes that are read in front of a statement go with the statement behind them. -/
theorem ReadsPrefixes.derives {affixes : List Affix}
    (h : r.ReadsPrefixes inside ts m affixes rest m') :
    ∃ us, ts = us ++ rest ∧ ∀ (ts' : List Token) (s : Script), r.Derives ts' [s] →
      r.Derives (us ++ ts') [affixes.foldr Affix.wrap s] := by
  induction h with
  | nil => exact ⟨[], rfl, fun _ _ h => h⟩
  | cons hfirst _ ih =>
    obtain ⟨us, rfl, hus⟩ := hfirst.derives hinside
    obtain ⟨us', rfl, hus'⟩ := ih
    refine ⟨us ++ us', (List.append_assoc ..).symm, fun ts' s hs => ?_⟩
    rw [List.append_assoc]
    exact hus.prefixed (hus' ts' s hs)

/-- The affixes that are read behind a script are put around it. -/
theorem ReadsSuffixes.derives {ts' : List Token} {s s' : Script}
    (h : r.ReadsSuffixes inside s ts m s' rest m') (hs : r.Derives ts' [s]) :
    ∃ us, ts = us ++ rest ∧ r.Derives (ts' ++ us) [s'] := by
  induction h generalizing ts' with
  | nil => exact ⟨[], rfl, by rwa [List.append_nil]⟩
  | cons hfirst _ ih =>
    obtain ⟨us, rfl, hus⟩ := hfirst.derives hinside
    obtain ⟨us', rfl, hus'⟩ := ih (hus.suffixed hs)
    refine ⟨us ++ us', (List.append_assoc ..).symm, ?_⟩
    rw [← List.append_assoc]
    exact hus'

end

/-! ## Compound statements -/

/-- The tokens that were read of a compound statement: the bracket, scripts, and perhaps a delimiter
and further scripts. All kinds that are still possible have this bracket and this delimiter. -/
inductive CompoundTokens (r : Reading) (opening : Token) : List Token → Compound → Prop
  | first {kinds : List CompoundKind} {ts : List Token} {scripts : List Script}
      (hopening : ∀ k ∈ kinds, r.bracketed k = true ∧ r.grammar.isA k.opening opening = true)
      (h : r.Derives ts scripts) : CompoundTokens r opening (opening :: ts) ⟨kinds, scripts, none⟩
  | second {kinds : List CompoundKind} {delimiter : Token} {ts ts' : List Token}
      {scripts scripts' : List Script}
      (hopening : ∀ k ∈ kinds, r.bracketed k = true ∧ r.grammar.isA k.opening opening = true)
      (h : r.Derives ts scripts)
      (hdelimiter : ∀ k, .binary k ∈ kinds → r.grammar.isA k.delimiter delimiter = true)
      (h' : r.Derives ts' scripts') : CompoundTokens r opening (opening :: ts ++ delimiter :: ts')
        ⟨kinds, scripts, some (delimiter.span, scripts')⟩

theorem mem_openedBy {k : CompoundKind} (h : k ∈ r.openedBy t) :
    r.bracketed k = true ∧ r.grammar.isA k.opening t = true :=
  (Bool.and_eq_true ..).mp (List.mem_filter.mp h).2

theorem mem_closedBy {k : CompoundKind} (h : k ∈ r.closedBy t) :
    r.bracketed k = true ∧ r.grammar.isA k.closing t = true :=
  (Bool.and_eq_true ..).mp (List.mem_filter.mp h).2

theorem mem_dividedBy {k : BinaryKind} (h : .binary k ∈ r.dividedBy t) :
    r.grammar.isA k.delimiter t = true :=
  ((Bool.and_eq_true ..).mp (List.mem_filter.mp h).2).2

namespace CompoundTokens

variable {opening : Token} {us : List Token} {c : Compound} {s : Script}

theorem push (h : r.CompoundTokens opening us c) (hs : r.Derives ts [s]) :
    r.CompoundTokens opening (us ++ ts) (c.push s) := by
  cases h with
  | first hopening h => exact .first hopening (h.append hs)
  | second hopening h hdelimiter h' =>
    rw [List.append_assoc]
    exact .second hopening h hdelimiter (h'.append hs)

theorem divide (h : r.CompoundTokens opening us c) (hsecond : c.second = none) :
    r.CompoundTokens opening (us ++ [t])
      { c with
        kinds := c.kinds.filter fun k => (r.dividedBy t).contains k
        second := some (t.span, []) } := by
  cases h with
  | second => contradiction
  | first hopening h =>
    refine .second (fun k hk => hopening k (List.mem_filter.mp hk).1) h (fun k hk => ?_) .nil
    exact mem_dividedBy (List.contains_iff_mem.mp (List.mem_filter.mp hk).2)

/-- The bracket that closes a compound statement makes it one of the kinds that have this bracket. -/
theorem close (h : r.CompoundTokens opening us c)
    (hclose : Compound.close { c with kinds := c.kinds.filter fun k => (r.closedBy t).contains k }
      opening.start t = .ok s) : r.Derives (us ++ [t]) [s] := by
  have hmem : ∀ {p : CompoundKind → Bool} {k : CompoundKind},
      k ∈ (c.kinds.filter fun k => (r.closedBy t).contains k).filter p →
        k ∈ c.kinds ∧ r.grammar.isA k.closing t = true := by
    intro p k hk
    obtain ⟨hkinds, hclosing⟩ := List.mem_filter.mp (List.mem_filter.mp hk).1
    exact ⟨hkinds, (mem_closedBy (List.contains_iff_mem.mp hclosing)).2⟩
  cases h with
  | first hopening h =>
    simp only [Compound.close] at hclose hmem
    split at hclose
    · rename_i hkind
      obtain rfl := Except.ok.inj hclose
      obtain ⟨hk, hclosing⟩ := hmem (hkind ▸ List.mem_singleton_self _)
      exact .grouping (hopening _ hk).2 h hclosing
    · rename_i hkind
      obtain rfl := Except.ok.inj hclose
      obtain ⟨hk, hclosing⟩ := hmem (hkind ▸ List.mem_singleton_self _)
      exact .inversion (of_decide_eq_true (hopening _ hk).1) (hopening _ hk).2 h hclosing
    · rename_i hkind
      obtain rfl := Except.ok.inj hclose
      obtain ⟨hk, hclosing⟩ := hmem (hkind ▸ List.mem_singleton_self _)
      exact .reflection (of_decide_eq_true (hopening _ hk).1) (hopening _ hk).2 h hclosing
    · contradiction
  | second hopening h hdelimiter h' =>
    simp only [Compound.close] at hclose hmem
    split at hclose
    · rename_i k hkind
      obtain rfl := Except.ok.inj hclose
      obtain ⟨hk, hclosing⟩ := hmem (hkind ▸ List.mem_singleton_self _)
      exact .divided (of_decide_eq_true (hopening _ hk).1) (hopening _ hk).2 h (hdelimiter _ hk) h'
        hclosing
    · contradiction

end CompoundTokens

section

variable (hinside : inside.Derives r)
include hinside

/-- What is read as the rest of a compound statement completes it. -/
theorem ReadsCompound.derives {opening : Token} {c : Compound} {us : List Token} {s : Script}
    (h : r.ReadsCompound inside opening.start c ts m s rest m') (hc : r.CompoundTokens opening us c) :
    ∃ us', ts = us' ++ rest ∧ r.Derives (us ++ us') [s] := by
  induction h generalizing us with
  | @closed _ t _ _ _ _ hclose => exact ⟨[t], rfl, hc.close hclose⟩
  | @divided _ t _ _ _ _ _ _ _ _ hsecond _ ih =>
    obtain ⟨us', rfl, hus'⟩ := ih (hc.divide hsecond)
    exact ⟨t :: us', rfl, by simpa using hus'⟩
  | script _ _ hfirst _ ih =>
    obtain ⟨us', htokens, hus'⟩ := hinside hfirst
    obtain ⟨us'', rfl, hus''⟩ := ih (hc.push hus')
    refine ⟨us' ++ us'', ?_, by rwa [← List.append_assoc]⟩
    rw [htokens, List.append_assoc]

/-! ## Statements -/

/-- What is read as a statement has the tokens of one. -/
theorem ReadsStatement.derives {s : Script} (h : r.ReadsStatement inside ts m s rest m') :
    ∃ us, ts = us ++ rest ∧ r.Derives us [s] := by
  cases h with
  | @move t _ _ _ hstart =>
    obtain ⟨hisMove, hmove⟩ := known_of_statementStart? hstart
    exact ⟨[t], rfl, .move hisMove hmove⟩
  | @macroUse t _ _ _ _ hstart hbody =>
    obtain ⟨hkeyword, hknown⟩ := known_of_statementStart? hstart
    exact ⟨[t], rfl, .macroUse hkeyword hknown hbody⟩
  | @nop t _ _ hstart => exact ⟨[t], rfl, .nop (known_of_statementStart? hstart)⟩
  | @signedCycle t t' _ _ _ _ hstart hbegin hcycle =>
    have hleading : r.SignAt (r.grammar.fixity .permutation = .prefixed) (some t) :=
      fun _ h => Option.some.inj h ▸ known_of_statementStart? hstart
    obtain ⟨us, htokens, hus⟩ := ReadsPermutation.tokens hleading hbegin hcycle
    exact ⟨t :: t' :: us, congrArg (t :: t' :: ·) htokens, .permutation hus⟩
  | @cycle t _ _ _ _ hstart hopens hcycle =>
    have hleading : r.SignAt (r.grammar.fixity .permutation = .prefixed) none :=
      fun _ h => by contradiction
    obtain ⟨us, htokens, hus⟩ :=
      ReadsPermutation.tokens hleading (isA_of_opensCycle hopens) hcycle
    exact ⟨t :: us, congrArg (t :: ·) htokens, .permutation hus⟩
  | @compound t _ _ _ _ _ hstart hopens hopened hcompound =>
    obtain ⟨us, rfl, hus⟩ := hcompound.derives hinside (.first (fun k => mem_openedBy) .nil)
    exact ⟨t :: us, rfl, by simpa using hus⟩

/-! ## Expressions -/

/-- What is read as a statement with its affixes has the tokens of one. -/
theorem ReadsConstruct.derives {s : Script} (h : r.ReadsConstruct inside ts m s rest m') :
    ∃ us, ts = us ++ rest ∧ r.Derives us [s] := by
  obtain ⟨hprefixes, hstatement, hsuffixes⟩ := h
  obtain ⟨front, rfl, hfront⟩ := hprefixes.derives hinside
  obtain ⟨us, rfl, hus⟩ := hstatement.derives hinside
  obtain ⟨back, rfl, hback⟩ := hsuffixes.derives hinside (hfront us _ hus)
  exact ⟨front ++ us ++ back, by simp only [List.append_assoc], hback⟩

end

/-- What is read as an expression has the tokens of one. -/
theorem derives_expressions (r : Reading) : r.expressions.Derives r := by
  intro ts rest m m' s hread
  refine expressions_induction (P := fun ts _ s rest _ => ∃ us, ts = us ++ rest ∧ r.Derives us [s])
    ?_ hread
  intro inside hinside ts m s rest m' hread
  have hderives : inside.Derives r := fun hread => (hinside _ _ _ _ _ hread).2
  cases hread with
  | single hconstruct => exact hconstruct.derives hderives
  | @combined _ _ t _ _ _ _ _ _ _ hconstruct hoperator hother =>
    obtain ⟨us, rfl, hus⟩ := hconstruct.derives hderives
    obtain ⟨us', rfl, hus'⟩ := hderives hother
    exact ⟨us ++ t :: us', by simp only [List.append_assoc, List.cons_append],
      hus.infixed hoperator hus'⟩

theorem ReadsAll.derives {scripts : List Script} (h : r.ReadsAll ts m scripts m') :
    r.Derives ts scripts := by
  induction h with
  | nil => exact .nil
  | cons hfirst _ ih =>
    obtain ⟨us, rfl, hus⟩ := r.derives_expressions hfirst
    exact hus.append ih

/-- The tokens of a text that is read are those of its scripts. -/
theorem derives_readAll {scripts : List Script} (hread : r.readAll ts m = .ok scripts m') :
    r.Derives ts scripts := (ReadsAll.of_readAll hread).derives

end CubeLang.Reading
