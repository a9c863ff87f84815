import CubeLang.Proofs.Grammar.AffixRelocation
import CubeLang.Proofs.Grammar.ExpressionSuccess

/-!
# Reading expressions in another place

A statement, and so an expression, is read in the other place as the same one. Macros are expanded as
in the first place, since their bodies keep their offsets.
-/

set_option autoImplicit false

namespace CubeLang.Reading

variable {f : Nat → Nat} {r : Reading} {tail ts rest : List Token} {t : Token}
variable {m m' : Memory} {inside inside' : Expressions} {s : Script}

/-- Whether a macro can be used is not a matter of where its name stands. -/
def ExpandsAnywhere (r : Reading) : Prop :=
  ∀ (f : Nat → Nat) (t : Token) (m m' : Memory) (body : Script),
    r.expand t m = .ok body m' → r.expand (t.relocate f) m = .ok body m'

/-! ## Compound statements -/

@[simp] theorem openedBy_relocate : r.openedBy (t.relocate f) = r.openedBy t := rfl

@[simp] theorem closedBy_relocate : r.closedBy (t.relocate f) = r.closedBy t := rfl

@[simp] theorem dividedBy_relocate : r.dividedBy (t.relocate f) = r.dividedBy t := rfl

@[simp] theorem openedBy_resized (length : Nat) (t : Token) :
    (r.resized length).openedBy t = r.openedBy t := rfl

@[simp] theorem closedBy_resized (length : Nat) (t : Token) :
    (r.resized length).closedBy t = r.closedBy t := rfl

@[simp] theorem dividedBy_resized (length : Nat) (t : Token) :
    (r.resized length).dividedBy t = r.dividedBy t := rfl

namespace Compound

/-- What was read of a compound statement, moved to other offsets. -/
def relocate (f : Nat → Nat) (c : Compound) : Compound where
  kinds := c.kinds
  first := c.first.map (Script.relocate f)
  second := c.second.map fun p => (p.1.relocate f, p.2.map (Script.relocate f))

theorem push_relocate (c : Compound) (s : Script) :
    (c.relocate f).push (s.relocate f) = (c.push s).relocate f := by
  obtain ⟨kinds, first, second⟩ := c
  cases second <;> simp [relocate, push]

theorem close_relocate {c : Compound} {start : Nat} {s : Script}
    (h : c.close start t = .ok s) :
    (c.relocate f).close (f start) (t.relocate f) = .ok (s.relocate f) := by
  obtain ⟨kinds, first, second⟩ := c
  cases second with
  | none =>
    simp only [close, relocate, Option.map_none] at h ⊢
    split at h
    case h_4 => contradiction
    all_goals
      obtain rfl := Except.ok.inj h
      simp [Script.relocate, Script.relocateAll_eq_map]
  | some p =>
    simp only [close, relocate, Option.map_some] at h ⊢
    split at h
    · rename_i k _
      obtain rfl := Except.ok.inj h
      simp [BinaryKind.combine_relocate, Script.relocate, Script.relocateAll_eq_map, Span.relocate]
    · contradiction

end Compound

section

variable (length : Nat) (hfollows : inside.Follows f tail inside')
include hfollows

/-- A compound statement is read to the same end. -/
theorem ReadsCompound.relocate {start : Nat} {c : Compound}
    (h : r.ReadsCompound inside start c ts m s rest m') :
    (r.resized length).ReadsCompound inside' (f start) (c.relocate f) (relocated f tail ts) m
      (s.relocate f) (relocated f tail rest) m' := by
  induction h with
  | closed hcloses hclose => exact .closed hcloses (Compound.close_relocate hclose)
  | divided hcloses hdivides hkinds hsecond _ ih =>
    simp only [Compound.relocate, Option.map_some, List.map_nil, ← Token.span_relocate] at ih
    exact .divided hcloses hdivides hkinds (by simp [Compound.relocate, hsecond]) ih
  | script hcloses hdivides hfirst hothers ih =>
    rw [← Compound.push_relocate] at ih
    exact .script hcloses hdivides (hfollows hfirst hothers.ne_nil) ih

/-! ## Statements -/

variable (hf : Monotone f) (hexpand : r.ExpandsAnywhere)
include hf hexpand

/-- A statement is read as the same one. -/
theorem ReadsStatement.relocate (h : r.ReadsStatement inside ts m s rest m')
    (htail : rest = [] → r.Ends tail) :
    (r.resized length).ReadsStatement inside' (relocated f tail ts) m (s.relocate f)
      (relocated f tail rest) m' := by
  cases h with
  | move hstart =>
    rw [Script.relocate, ← Token.span_relocate]
    exact .move hstart
  | macroUse hstart hbody =>
    rw [Script.relocate, ← Token.span_relocate]
    exact .macroUse hstart (hexpand f _ _ _ _ hbody)
  | nop hstart =>
    rw [Script.relocate, ← Token.span_relocate]
    exact .nop hstart
  | signedCycle hstart hbegin hcycle =>
    exact .signedCycle hstart hbegin (hcycle.relocate hf length htail)
  -- Behind an opening bracket there is a token, and so the same one in the other place.
  | @cycle t ts _ _ _ hstart hopens hcycle =>
    obtain ⟨t', ts, rfl⟩ := List.exists_cons_of_ne_nil hcycle.ne_nil
    exact .cycle hstart hopens (hcycle.relocate hf length htail)
  | @compound t ts _ _ _ _ hstart hopens hopened hcompound =>
    obtain ⟨t', ts, rfl⟩ := List.exists_cons_of_ne_nil hcompound.ne_nil
    exact .compound hstart hopens hopened (hcompound.relocate length hfollows)

/-! ## Expressions -/

/-- A statement with its affixes is read as the same one, and affixes that stand behind it in the other
place go around it. -/
theorem ReadsConstruct.onward {left : List Token} {s' : Script} {m'' : Memory}
    (h : r.ReadsConstruct inside ts m s rest m') (htail : rest = [] → r.Ends tail)
    (honward : (r.resized length).ReadsSuffixes inside' (s.relocate f) (relocated f tail rest) m' s'
      left m'') : (r.resized length).ReadsConstruct inside' (relocated f tail ts) m s' left m'' := by
  obtain ⟨hprefixes, hstatement, hsuffixes⟩ := h
  have hsuffixes' := hsuffixes.onward length hfollows hf htail honward
  rw [← Affix.foldr_wrap_relocate hf] at hsuffixes'
  refine .intro (hprefixes.relocate length hfollows ?_)
    (hstatement.relocate length hfollows hf hexpand ?_) hsuffixes'
  · rintro rfl
    cases hstatement
  · rintro rfl
    exact htail hsuffixes.eq_nil

/-- A statement with its affixes is read as the same one. -/
theorem ReadsConstruct.relocate (h : r.ReadsConstruct inside ts m s rest m')
    (htail : rest = [] → r.Stops tail) :
    (r.resized length).ReadsConstruct inside' (relocated f tail ts) m (s.relocate f)
      (relocated f tail rest) m' :=
  h.onward length hfollows hf hexpand (fun hnil => (htail hnil).toEnds)
    (.nil (h.noAffix.relocate length htail))

end

theorem infixOf?_peek_relocated (length : Nat) (htail : ts = [] → r.Stops tail) :
    r.infixOf? ((r.resized length).peek (relocated f tail ts)) = r.infixOf? (r.peek ts) := by
  cases ts with
  | cons t ts => rfl
  | nil =>
    rw [infixOf?_peek_nil]
    cases tail with
    | nil => exact infixOf?_peek_nil (r.resized length)
    | cons t tail => exact (htail rfl).infixed t rfl

variable (hf : Monotone f) (length : Nat) (hexpand : r.ExpandsAnywhere)
include hexpand

include hf in
/-- An expression is read as the same one. -/
theorem expressions_relocated (hread : r.expressions ts m s rest m')
    (htail : rest = [] → r.Stops tail) :
    (r.resized length).expressions (relocated f tail ts) m (s.relocate f) (relocated f tail rest)
      m' := by
  refine expressions_induction (P := fun ts m s rest m' => (rest = [] → r.Stops tail) →
    (r.resized length).expressions (relocated f tail ts) m (s.relocate f) (relocated f tail rest) m')
    ?_ hread htail
  intro inside hinside ts m s rest m' hread htail
  have hfollows : inside.Follows f tail (r.resized length).expressions := fun hread hne =>
    (hinside _ _ _ _ _ hread).2 fun hnil => absurd hnil hne
  apply ReadsExpression.reads
  cases hread with
  | single hconstruct hend =>
    exact .single (hconstruct.relocate length hfollows hf hexpand htail)
      ((infixOf?_peek_relocated length htail).trans hend)
  | @combined _ _ _ _ _ _ s s' k g hconstruct hoperator hother =>
    have hconstruct' := hconstruct.relocate length hfollows hf hexpand fun hnil =>
      absurd hnil (List.cons_ne_nil _ _)
    have hread' := ReadsExpression.combined (r := r.resized length) hconstruct' hoperator
      ((hinside _ _ _ _ _ hother).2 htail)
    have hspan : Span.relocate f ⟨s.span.start, s'.span.stop⟩ =
        ⟨(s.relocate f).span.start, (s'.relocate f).span.stop⟩ := by simp [Span.relocate]
    rwa [apply_ite (Script.relocate f), BinaryKind.combine_relocate, BinaryKind.combine_relocate, hspan]

/-- Where all offsets stay as they are, an expression that is read does too. -/
theorem relocate_id_of_expressions (hread : r.expressions ts m s rest m') : s.relocate id = s := by
  have hsame := expressions_relocated monotone_id r.length hexpand hread fun _ => r.stops_nil
  rw [relocated_id, relocated_id, List.append_nil, List.append_nil] at hsame
  exact hsame.unique hread

end CubeLang.Reading
