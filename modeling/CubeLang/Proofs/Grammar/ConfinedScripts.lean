import CubeLang.Proofs.Grammar.ConfinedCycles
import CubeLang.Proofs.Grammar.Derivation
import CubeLang.Proofs.Script.Nesting

/-!
# Scripts without what stands behind them

Affixes, statements and expressions, too, are read without what stands behind them. Only the end of
the text can stand there then, and it is neither an affix nor an operator.
-/

set_option autoImplicit false

namespace CubeLang.Reading

variable {r : Reading} {t : Token} {ts rest : List Token} {m m' : Memory} {inside : Expressions}
variable {s : Script}

/-- All expressions are read without what stands behind them. -/
def Expressions.Confines (r : Reading) (inside : Expressions) : Prop :=
  ∀ {ts rest : List Token} {m m' : Memory} {s : Script}, inside ts m s rest m' →
    Contained ts rest s fun us left => r.expressions us m s left m'

/-! ## Repeat counts -/

theorem confined_countEnd (r : Reading) (number : Token) (ts : List Token) :
    Confined ts (r.countEnd number ts).2 fun us left =>
      r.countEnd number us = ((r.countEnd number ts).1, left) := by
  by_cases hend : r.grammar.isOnly .repetitionEnd (r.peek ts) = true
  · cases ts with
    | nil => contradiction
    | cons t ts =>
      have hends : ∀ us, r.countEnd number (t :: us) = (t.stop, us) := fun us => if_pos hend
      rw [hends]
      exact .token hends
  · have hnone : r.countEnd number ts = (number.stop, ts) := if_neg hend
    rw [hnone]
    refine .refl fun left hleft => if_neg ?_
    rcases peek_of_prefix hleft with hpeek | hpeek
    · rw [hpeek]
      exact Bool.false_ne_true
    · rwa [hpeek]

theorem ReadsCount.confined {a : Affix} (h : r.ReadsCount ts a rest) :
    Confined ts rest fun us left => r.ReadsCount us a left := by
  obtain @⟨number, behind, value, count, hinside, hvalue, hcount⟩ := h
  have hfront : Confined ts behind fun us left =>
      r.countInside us = number :: left ∧ r.peek us = r.peek ts := by
    unfold countInside at hinside ⊢
    split at hinside
    · rename_i hbegin
      obtain ⟨t, ts, rfl⟩ := List.exists_cons_of_ne_nil (l := ts) (by rintro rfl; contradiction)
      obtain rfl : ts = number :: behind := hinside
      exact ⟨[t, number], rfl, fun left _ => ⟨if_pos hbegin, rfl⟩⟩
    · rename_i hbegin
      subst hinside
      exact .token fun left => ⟨if_neg hbegin, rfl⟩
  refine hfront.andThen (r.confined_countEnd number behind) fun us behind' left hus hbehind => ?_
  obtain ⟨hinside', hpeek⟩ := hus
  have hread := ReadsCount.intro hinside' hvalue hcount
  rwa [hbehind, hpeek] at hread

/-! ## Affixes -/

/-- Where no affix begins, none begins either if a part of what stands there is missing. -/
theorem NoAffix.of_prefix {place : Fixity} {left : List Token} (h : r.NoAffix place ts)
    (hleft : left <+: ts) : r.NoAffix place left := by
  obtain ⟨us, rfl⟩ := hleft
  cases left with
  | nil => exact fun _ ht => nomatch ht
  | cons t left => exact h

section

variable (hinside : inside.Confines r)
include hinside

theorem ReadsOperator.confined {kinds : List BinaryKind} {before : List Script} {a : Affix}
    (h : r.ReadsOperator inside t kinds before ts m a rest m') :
    Confined ts rest fun us left => r.ReadsOperator r.expressions t kinds before us m a left m' := by
  induction h with
  | closed hfirst hkind =>
    refine (hinside hfirst).confined.andThen (.next _ _) fun us behind left hus hbehind => ?_
    subst hbehind
    exact .closed hus hkind
  | further hfirst hkeyword hnone _ ih =>
    have hothers := ih.head fun us left hread => by
      cases hread with
      | closed hfirst | further hfirst => exact hfirst.ne_nil
    refine (hinside hfirst).confined.andThen hothers fun us behind left hus hbehind => ?_
    obtain ⟨⟨behind, rfl⟩, hothers'⟩ := hbehind
    exact .further hus hkeyword hnone hothers'

theorem ReadsAffix.confined {place : Fixity} {a : Affix}
    (h : r.ReadsAffix inside place ts m a rest m') :
    Confined ts rest fun us left => r.ReadsAffix r.expressions place us m a left m' := by
  cases h with
  | count hstart hcount =>
    refine (hcount.confined.head fun _ _ h => h.ne_nil).imp fun us left hus => ?_
    obtain ⟨⟨us, rfl⟩, hcount'⟩ := hus
    exact .count hstart hcount'
  | operator hstart hoperator =>
    refine (Confined.next _ _).andThen (hoperator.confined hinside) fun us behind left hus hbehind => ?_
    subst hus
    exact .operator hstart hbehind
  | single hstart => exact .token fun _ => .single hstart

theorem ReadsPrefixes.confined {affixes : List Affix}
    (h : r.ReadsPrefixes inside ts m affixes rest m') :
    Confined ts rest fun us left => r.ReadsPrefixes r.expressions us m affixes left m' := by
  induction h with
  | nil hnone => exact .refl fun left hleft => .nil (hnone.of_prefix hleft)
  | cons hfirst _ ih =>
    exact (hfirst.confined hinside).andThen ih fun _ _ _ hus hbehind => .cons hus hbehind

theorem ReadsSuffixes.confined {s' : Script} (h : r.ReadsSuffixes inside s ts m s' rest m') :
    Confined ts rest fun us left => r.ReadsSuffixes r.expressions s us m s' left m' := by
  induction h with
  | nil hnone => exact .refl fun left hleft => .nil (hnone.of_prefix hleft)
  | cons hfirst _ ih =>
    exact (hfirst.confined hinside).andThen ih fun _ _ _ hus hbehind => .cons hus hbehind

end

/-! ## Statements -/

theorem stop_of_close {c : Compound} {start : Nat} {s : Script} (h : c.close start t = .ok s) :
    s.span.stop = t.stop := by
  obtain ⟨kinds, first, second⟩ := c
  cases second with
  | none =>
    simp only [Compound.close] at h
    split at h
    case h_4 => contradiction
    all_goals
      obtain rfl := Except.ok.inj h
      rfl
  | some p =>
    simp only [Compound.close] at h
    split at h
    · rename_i k _
      obtain rfl := Except.ok.inj h
      cases k <;> rfl
    · contradiction

section

variable (hinside : inside.Confines r)
include hinside

/-- A compound statement is read up to its closing bracket, where it stops. -/
theorem ReadsCompound.confined {start : Nat} {c : Compound}
    (h : r.ReadsCompound inside start c ts m s rest m') :
    (∃ front closing, ts = front ++ closing :: rest ∧ s.span.stop = closing.stop) ∧
      Confined ts rest fun us left => r.ReadsCompound r.expressions start c us m s left m' := by
  induction h with
  | @closed _ t _ _ _ hcloses hclose =>
    exact ⟨⟨[], t, rfl, stop_of_close hclose⟩, .token fun _ => .closed hcloses hclose⟩
  | @divided _ t ts _ _ _ _ hcloses hdivides hkinds hsecond _ ih =>
    obtain ⟨⟨front, closing, htokens, hstop⟩, hrest⟩ := ih
    refine ⟨⟨t :: front, closing, congrArg (t :: ·) htokens, hstop⟩, ?_⟩
    refine (Confined.next t ts).andThen hrest fun us behind left hus hbehind => ?_
    subst hus
    exact .divided hcloses hdivides hkinds hsecond hbehind
  | @script _ t ts behind rest _ _ _ _ _ hcloses hdivides hfirst _ ih =>
    obtain ⟨⟨front, closing, htokens, hstop⟩, hrest⟩ := ih
    have hfront := (hinside hfirst).confined.head fun _ _ h => h.ne_nil
    refine ⟨?_, hfront.andThen hrest fun us behind left hus hbehind => ?_⟩
    · obtain ⟨taken, htaken, -⟩ := hfront
      refine ⟨taken ++ front, closing, ?_, hstop⟩
      calc t :: ts = taken ++ behind := htaken
        _ = taken ++ (front ++ closing :: rest) := congrArg (taken ++ ·) htokens
        _ = _ := (List.append_assoc ..).symm
    · obtain ⟨⟨us, rfl⟩, hfirst'⟩ := hus
      exact .script hcloses hdivides hfirst' hbehind

/-- A statement is read without what stands behind it. -/
theorem ReadsStatement.contained (h : r.ReadsStatement inside ts m s rest m') :
    Contained ts rest s fun us left => r.ReadsStatement r.expressions us m s left m' := by
  cases h with
  | move hstart => exact .token (Int.le_refl _) fun _ => .move hstart
  | macroUse hstart hbody => exact .token (Int.le_refl _) fun _ => .macroUse hstart hbody
  | nop hstart => exact .token (Int.le_refl _) fun _ => .nop hstart
  | @signedCycle t t' ts _ _ _ hstart hbegin hcycle =>
    have hbrackets : Confined (t :: t' :: ts) ts fun us left => us = t :: t' :: left :=
      ⟨[t, t'], rfl, fun _ _ => rfl⟩
    refine hcycle.contained.behind hbrackets (Int.le_refl _)
      fun us behind left hus hbehind => ?_
    subst hus
    exact .signedCycle hstart hbegin hbehind
  -- What a bracket opens is seen at the token behind it, which is read with it.
  | @cycle t ts _ _ _ hstart hopens hcycle =>
    obtain ⟨d, ts, rfl⟩ := List.exists_cons_of_ne_nil hcycle.ne_nil
    have hinner := hcycle.contained.head fun _ _ h => h.ne_nil
    refine hinner.behind (.next t _) (Int.le_refl _) fun us behind left hus hbehind => ?_
    subst hus
    obtain ⟨⟨behind, rfl⟩, hcycle'⟩ := hbehind
    exact .cycle hstart hopens hcycle'
  | @compound t ts _ _ _ _ hstart hopens hopened hcompound =>
    obtain ⟨⟨front, closing, htokens, hstop⟩, hrest⟩ := hcompound.confined hinside
    obtain ⟨d, ts, rfl⟩ := List.exists_cons_of_ne_nil hcompound.ne_nil
    have hinner := hrest.head fun _ _ h => h.ne_nil
    refine .of_last (t :: front) ((Confined.next t _).andThen hinner
      fun us behind left hus hbehind => ?_) (congrArg (t :: ·) htokens) (Int.le_of_eq hstop.symm)
    subst hus
    obtain ⟨⟨behind, rfl⟩, hcompound'⟩ := hbehind
    exact .compound hstart hopens hopened hcompound'

end

/-! ## Expressions -/

/-- Affixes behind a script reach up to the last of their tokens, if there are any. -/
theorem ReadsSuffixes.exists_last {s' : Script} (hderives : inside.Derives r)
    (h : r.ReadsSuffixes inside s ts m s' rest m') : (ts = rest ∧ s = s' ∧ m = m') ∨
      ∃ front last, ts = front ++ last :: rest ∧ (last.stop : Int) ≤ s'.span.stop := by
  induction h with
  | nil => exact Or.inl ⟨rfl, rfl, rfl⟩
  | cons hfirst _ ih =>
    obtain ⟨us, htokens, hus⟩ := hfirst.derives hderives
    obtain ⟨front, last, rfl, hlast⟩ := hus.exists_last
    refine Or.inr ?_
    rcases ih with ⟨rfl, rfl, -⟩ | ⟨front', last', rfl, hlast'⟩
    · refine ⟨front, last, by simpa using htokens, ?_⟩
      rw [Affix.span_wrap, ← hlast]
      exact Int.le_max_left _ _
    · exact ⟨front ++ last :: front', last', by simpa using htokens, hlast'⟩

theorem le_stop_foldr_wrap (affixes : List Affix) (s : Script) :
    s.span.stop ≤ (affixes.foldr Affix.wrap s).span.stop := by
  induction affixes with
  | nil => exact Int.le_refl _
  | cons a affixes ih =>
    rw [List.foldr_cons, Affix.span_wrap]
    exact Int.le_trans ih (Int.le_max_right _ _)

/-- A statement with its affixes is read without what stands behind it. -/
theorem ReadsConstruct.contained (hinside : inside.Confines r) (hderives : inside.Derives r)
    (h : r.ReadsConstruct inside ts m s rest m') :
    Contained ts rest s fun us left => r.ReadsConstruct r.expressions us m s left m' := by
  obtain @⟨behind, behind', _, _, m₁, m₂, _, affixes, s₀, _, hprefixes, hstatement, hsuffixes⟩ := h
  have hfront := hprefixes.confined hinside
  have hmiddle := hstatement.contained hinside
  rcases hsuffixes.exists_last hderives with ⟨rfl, rfl, rfl⟩ | ⟨front, last, htokens, hlast⟩
  -- Without an affix behind it, the statement is the last thing that was read.
  · refine (hmiddle.imp (Int.le_refl _) fun us left hleft hus => And.intro hleft hus).behind hfront
      (le_stop_foldr_wrap affixes s₀) fun us behind left hus hbehind => ?_
    obtain ⟨hleft, hstatement'⟩ := hbehind
    exact .intro hus hstatement' (.nil (hsuffixes.noAffix.of_prefix hleft))
  · have hback := hsuffixes.confined hinside
    have hrest : Confined behind rest fun us left => ∃ behind',
        r.ReadsStatement r.expressions us m₁ s₀ behind' m₂ ∧
          r.ReadsSuffixes r.expressions (affixes.foldr Affix.wrap s₀) behind' m₂ s left m' :=
      hmiddle.confined.andThen hback fun us behind' left hus hbehind => ⟨behind', hus, hbehind⟩
    have hwhole : Confined ts rest fun us left => r.ReadsConstruct r.expressions us m s left m' :=
      hfront.andThen hrest fun us behind left hus hbehind => by
        obtain ⟨behind', hstatement', hsuffixes'⟩ := hbehind
        exact .intro hus hstatement' hsuffixes'
    obtain ⟨taken, htaken, -⟩ := hfront
    obtain ⟨taken', htaken', -⟩ := hmiddle.confined
    refine .of_last (taken ++ (taken' ++ front)) hwhole ?_ hlast
    calc ts = taken ++ behind := htaken
      _ = taken ++ (taken' ++ (front ++ last :: rest)) := by rw [htaken', htokens]
      _ = _ := by simp only [List.append_assoc]

/-- **An expression is read without what stands behind it**, and without a sign behind an empty cycle at
its end, which is no part of it. -/
theorem confines_expressions (r : Reading) : r.expressions.Confines r := by
  intro ts rest m m' s hread
  refine expressions_induction (P := fun ts m s rest m' => Contained ts rest s fun us left =>
    r.expressions us m s left m') ?_ hread
  intro inside hinside ts m s rest m' hread
  have hconfines : inside.Confines r := fun hread => (hinside _ _ _ _ _ hread).2
  have hderives : inside.Derives r := fun hread =>
    r.derives_expressions (hinside _ _ _ _ _ hread).1
  cases hread with
  | single hconstruct hend =>
    refine (hconstruct.contained hconfines hderives).imp (Int.le_refl _) fun us left hleft hus => ?_
    refine ReadsExpression.reads (.single hus ?_)
    rcases peek_of_prefix hleft with hpeek | hpeek
    · rw [hpeek, infixOf?_peek_nil]
    · rw [hpeek, hend]
  | @combined behind _ t _ m₁ _ s s' _ _ hconstruct hoperator hother =>
    have hfront : Confined ts behind fun us left =>
        r.ReadsConstruct r.expressions us m s (t :: left) m₁ :=
      (hconstruct.contained hconfines hderives).confined.andThen (.next t behind)
        fun us behind' left hus hbehind => hbehind ▸ hus
    refine (hconfines hother).behind hfront ?_ fun us behind' left hus hrest => ?_
    · split <;> simp [Script.span_combine]
    · exact ReadsExpression.reads (.combined hus hoperator hrest)

end CubeLang.Reading
