import CubeLang.Proofs.Grammar.CycleRelocation
import CubeLang.Proofs.Grammar.AffixSuccess

/-!
# Reading affixes in another place

A repeat count or an operator is read in the other place as the same one, if the expressions inside the
operator are; such an expression never takes the last token. Where affixes in front end there must be a
token left; affixes behind may be ended by the tokens that stand behind in the other place, or go on
there.
-/

set_option autoImplicit false

namespace CubeLang.Reading

variable {f : Nat → Nat} {r : Reading} {tail ts rest : List Token} {t : Token}
variable {m m' : Memory} {inside inside' : Expressions}

/-! ## Repeat counts -/

theorem countInside_relocated (length : Nat) (h : ts ≠ []) :
    (r.resized length).countInside (relocated f tail ts) =
      relocated f tail (r.countInside ts) := by
  obtain ⟨t, ts, rfl⟩ := List.exists_cons_of_ne_nil h
  by_cases hbegin : r.grammar.isOnly .repetitionBegin t = true <;> simp [countInside, hbegin]

theorem countEnd_relocated (length : Nat)
    (htail : rest = [] → ∀ t ∈ tail.head?, r.grammar.isOnly .repetitionEnd t = false)
    (number : Token) :
    (r.resized length).countEnd (number.relocate f) (relocated f tail rest) =
      (f (r.countEnd number rest).1, relocated f tail (r.countEnd number rest).2) := by
  cases rest with
  | cons t rest =>
    by_cases hend : r.grammar.isOnly .repetitionEnd t = true <;> simp [countEnd, hend]
  | nil =>
    have hnil : r.countEnd number [] = (number.stop, []) := rfl
    cases tail with
    | nil => rfl
    | cons t tail =>
      have hend : r.grammar.isOnly .repetitionEnd t = false := htail rfl t rfl
      rw [hnil]
      simp [countEnd, hend]

theorem ReadsCount.relocate (length : Nat) {a : Affix} (h : r.ReadsCount ts a rest)
    (htail : rest = [] → r.Ends tail) :
    (r.resized length).ReadsCount (relocated f tail ts) (a.relocate f) (relocated f tail rest) := by
  have hne := h.ne_nil
  obtain @⟨number, behind, value, count, hinside, hvalue, hcount⟩ := h
  have hinside' : (r.resized length).countInside (relocated f tail ts) =
      number.relocate f :: relocated f tail behind := by
    rw [countInside_relocated length hne, hinside]
    rfl
  have hbehind : behind = [] → ∀ t ∈ tail.head?, r.grammar.isOnly .repetitionEnd t = false := by
    rintro rfl
    exact (htail rfl).countEnd
  have hread := ReadsCount.intro hinside' hvalue hcount
  rw [countEnd_relocated length hbehind, peek_relocated length hne] at hread
  simpa [Affix.relocate] using hread

/-! ## Operators -/

/-- What is read as an expression inside of others is read in the other place too, if that leaves a
token. -/
def Expressions.Follows (f : Nat → Nat) (tail : List Token) (inside inside' : Expressions) : Prop :=
  ∀ {ts rest : List Token} {m m' : Memory} {s : Script}, inside ts m s rest m' → rest ≠ [] →
    inside' (relocated f tail ts) m (s.relocate f) (relocated f tail rest) m'

theorem relocate_operatorSpan (t : Token) (scripts : List Script) :
    operatorSpan (t.relocate f) (scripts.map (Script.relocate f)) =
      (operatorSpan t scripts).relocate f := by
  unfold operatorSpan
  cases hlast : scripts.getLast? with
  | none => simp [hlast]
  | some s => simp [hlast, Span.relocate]

theorem relocate_operatorAffix (k : BinaryKind) (opening closing : Token) (scripts : List Script) :
    operatorAffix k (opening.relocate f) (closing.relocate f) (scripts.map (Script.relocate f)) =
      (operatorAffix k opening closing scripts).relocate f := by
  simp only [operatorAffix, relocate_operatorSpan, Affix.relocate, Span.relocate_natCast,
    Script.relocate, Script.relocateAll_eq_map]
  rfl

section

variable (length : Nat) (hfollows : inside.Follows f tail inside')
include hfollows

theorem ReadsOperator.relocate {kinds : List BinaryKind} {before : List Script} {a : Affix}
    (h : r.ReadsOperator inside t kinds before ts m a rest m') :
    (r.resized length).ReadsOperator inside' (t.relocate f) kinds (before.map (Script.relocate f))
      (relocated f tail ts) m (a.relocate f) (relocated f tail rest) m' := by
  induction h with
  | closed hfirst hkind =>
    rw [← relocate_operatorAffix, List.map_append]
    exact .closed (hfollows hfirst (List.cons_ne_nil _ _)) hkind
  | further hfirst hkeyword hnone _ ih =>
    rw [List.map_append] at ih
    exact .further (hfollows hfirst (List.cons_ne_nil _ _)) hkeyword hnone ih

/-! ## Affixes -/

omit hfollows

/-- An affix that is one token moves with it. -/
theorem relocate_of_single {place : Fixity} {operation : Affix.Operation}
    (hstart : r.affixStart? place t = some (.single operation)) :
    Affix.relocate f ⟨operation, t.span⟩ = ⟨operation, (t.relocate f).span⟩ := by
  rcases known_of_affixStart? hstart with ⟨rfl, -⟩ | ⟨rfl, -⟩ <;> simp [Affix.relocate]

/-- Where no affix goes on, none does in the other place, if the tokens behind stop it. -/
theorem NoAffix.relocate (h : r.NoAffix .suffixed ts) (htail : ts = [] → r.Stops tail) :
    (r.resized length).NoAffix .suffixed (relocated f tail ts) := by
  cases ts with
  | nil =>
    have hnone := (htail rfl).affix length (fun us _ => r.readExpression us) {}
    exact (readAffix?_eq_none_iff.mp hnone).1
  | cons t ts => exact fun t' ht' => Option.some.inj ht' ▸ h t rfl

include hfollows

/-- Whether an affix begins, and which one, is the same in the other place. -/
theorem ReadsAffix.relocate {place : Fixity} {a : Affix}
    (h : r.ReadsAffix inside place ts m a rest m') (htail : rest = [] → r.Ends tail) :
    (r.resized length).ReadsAffix inside' place (relocated f tail ts) m (a.relocate f)
      (relocated f tail rest) m' := by
  cases h with
  | count hstart hcount => exact .count hstart (hcount.relocate length htail)
  | operator hstart hoperator => exact .operator hstart (hoperator.relocate length hfollows)
  | single hstart =>
    rw [relocate_of_single hstart]
    exact .single hstart

/-- The affixes in front of a statement are read as the same ones. -/
theorem ReadsPrefixes.relocate {affixes : List Affix}
    (h : r.ReadsPrefixes inside ts m affixes rest m') (hne : rest ≠ []) :
    (r.resized length).ReadsPrefixes inside' (relocated f tail ts) m
      (affixes.map (Affix.relocate f)) (relocated f tail rest) m' := by
  induction h with
  | nil hnone =>
    obtain ⟨t, ts, rfl⟩ := List.exists_cons_of_ne_nil hne
    exact .nil fun t' ht' => Option.some.inj ht' ▸ hnone t rfl
  | cons hfirst hothers ih =>
    refine .cons (hfirst.relocate length hfollows ?_) (ih hne)
    rintro rfl
    exact absurd hothers.eq_nil hne

/-- The affixes behind a statement are read as the same ones, and so are those that stand behind them in
the other place. -/
theorem ReadsSuffixes.onward (hf : Monotone f) {left : List Token} {m'' : Memory} {s s' s'' : Script}
    (h : r.ReadsSuffixes inside s ts m s' rest m') (htail : rest = [] → r.Ends tail)
    (honward : (r.resized length).ReadsSuffixes inside' (s'.relocate f) (relocated f tail rest) m' s''
      left m'') :
    (r.resized length).ReadsSuffixes inside' (s.relocate f) (relocated f tail ts) m s'' left m'' := by
  induction h with
  | nil => exact honward
  | cons hfirst hothers ih =>
    have hothers' := ih htail honward
    rw [← Affix.wrap_relocate hf] at hothers'
    refine .cons (hfirst.relocate length hfollows ?_) hothers'
    rintro rfl
    exact htail hothers.eq_nil

end

end CubeLang.Reading
