import CubeLang.Proofs.Grammar.BareExpression
import CubeLang.Proofs.Grammar.CycleLockstep
import CubeLang.Proofs.Grammar.ExpressionRelocation
import CubeLang.Proofs.Grammar.TextReading

/-!
# Scripts in lockstep

Affixes, statements and expressions are read in lockstep with the same tokens in another place, and so
are whole texts. Two texts that have the same lexemes differ in the places of their tokens only, so they
give the same script but for its offsets, or are refused for the same cause.
-/

set_option autoImplicit false

namespace CubeLang

namespace Reading

variable {f : Nat → Nat}

/-! ## Affixes -/

theorem displaced_readCount (r : Reading) (f : Nat → Nat) (ts : List Token) :
    Displaced f (Parsed.Displaced f (Affix.relocate f)) (r.readCount ts)
      ((r.moved f).readCount (relocated f [] ts)) := by
  have hinside : (r.moved f).countInside (relocated f [] ts) =
      relocated f [] (r.countInside ts) := by
    unfold countInside
    rw [peek_moved, tail_relocated_nil, Grammar.isOnly_relocate]
    split <;> rfl
  cases hnumber : r.countInside ts with
  | nil =>
    rw [hnumber] at hinside
    rw [readCount_of_inside_nil hnumber, readCount_of_inside_nil hinside]
    exact .ofToken _ _
  | cons number rest =>
    rw [hnumber, relocated_cons] at hinside
    obtain ⟨_, hread⟩ := readCount_of_inside hnumber
    obtain ⟨_, hread'⟩ := readCount_of_inside hinside
    have hvalue : (number.relocate f).value? = number.value? := rfl
    rw [hread, hread', hvalue]
    cases number.value? with
    | none => exact .ofToken _ _
    | some value =>
      dsimp only
      cases RepeatCount.ofInt? value with
      | none => exact .ofToken _ _
      | some count =>
        have hend : (r.moved f).countEnd (number.relocate f) (relocated f [] rest) =
            (f (r.countEnd number rest).1, relocated f [] (r.countEnd number rest).2) :=
          countEnd_relocated (f r.length) (fun _ => r.stops_nil.countEnd) number
        refine .ok ⟨?_, ?_⟩
        · simp only [hend, peek_moved, Affix.relocate, Span.relocate_natCast, Token.start_relocate]
        · exact congrArg Prod.snd hend

/-- One reader of expressions goes in lockstep with another one that reads in another place. -/
def Inner.Lockstep (f : Nat → Nat) {bound bound' : Nat} (inner : Inner bound)
    (inner' : Inner bound') : Prop :=
  ∀ (ts : List Token) (h : ts.length < bound) (h' : (relocated f [] ts).length < bound'),
    CubeLang.Lockstep f (Parsed.Displaced f (Script.relocate f)) (inner ts h)
      (inner' (relocated f [] ts) h')

section

variable {bound bound' : Nat} {inner : Inner bound} {inner' : Inner bound'}
variable (hinner : inner.Lockstep f inner') (r : Reading)
include hinner

theorem Inner.Lockstep.restrict {n n' : Nat} (h : n ≤ bound) (h' : n' ≤ bound') :
    (inner.restrict h).Lockstep f (inner'.restrict h') :=
  fun ts hts hts' => hinner ts (Nat.lt_of_lt_of_le hts h) (Nat.lt_of_lt_of_le hts' h')

theorem lockstep_readOperator (opening : Token) (kinds : List BinaryKind) (before : List Script)
    (ts : List Token) (h : ts.length < bound) (h' : (relocated f [] ts).length < bound') :
    CubeLang.Lockstep f (Parsed.Displaced f (Affix.relocate f))
      (r.readOperator inner opening kinds before ts h)
      ((r.moved f).readOperator inner' (opening.relocate f) kinds (before.map (Script.relocate f))
        (relocated f [] ts) h') := by
  unfold readOperator
  refine .andThen (hinner ts h h') fun p q hpq => ?_
  obtain ⟨script, rest, hlt⟩ := p
  obtain ⟨_, _, hlt'⟩ := q
  obtain ⟨hvalue, hrest⟩ := hpq
  dsimp only at hvalue hrest
  subst hvalue hrest
  simp only [peek_moved, Token.isKeyword_relocate, Grammar.isA_relocate]
  refine .ite (fun _ => .failAt _ _) fun _ => ?_
  cases kinds.find? fun k => r.grammar.isA k.closing (r.peek rest) with
  | some k =>
    refine .done ⟨?_, tail_relocated_nil f rest⟩
    have hscripts : before.map (Script.relocate f) ++ [script.relocate f] =
        (before ++ [script]).map (Script.relocate f) := by simp
    simp only [hscripts, relocate_operatorSpan, Affix.relocate, Span.relocate_natCast,
      Script.relocate, Script.relocateAll_eq_map]
    rfl
  | none =>
    have hothers := lockstep_readOperator opening kinds (before ++ [script]) rest
      (Nat.lt_trans hlt h) (Nat.lt_trans hlt' h')
    rw [List.map_append] at hothers
    exact .andThen hothers fun p q hpq => .done ⟨hpq.value, hpq.rest⟩
termination_by ts.length

/-- Whether there is an affix, and which one. -/
def AffixDisplaced (f : Nat → Nat) {m n : Nat} (o : Option (Parsed m Affix))
    (o' : Option (Parsed n Affix)) : Prop :=
  match o, o' with
  | none, none => True
  | some p, some q => p.Displaced f (Affix.relocate f) q
  | _, _ => False

theorem lockstep_readAffix? (place : Fixity) (ts : List Token) (h : ts.length ≤ bound)
    (h' : (relocated f [] ts).length ≤ bound') :
    CubeLang.Lockstep f (AffixDisplaced f) (r.readAffix? place ts (inner.restrict h))
      ((r.moved f).readAffix? place (relocated f [] ts) (inner'.restrict h')) := by
  cases ts with
  | nil => exact .done trivial
  | cons t rest =>
    have hstart : (r.moved f).affixStart? place (t.relocate f) = r.affixStart? place t := rfl
    show CubeLang.Lockstep f (AffixDisplaced f) _ ((r.moved f).readAffix? place
      (t.relocate f :: relocated f [] rest) (inner'.restrict h'))
    rw [readAffix?_cons, readAffix?_cons, hstart]
    cases hsame : r.affixStart? place t with
    | none => exact .done trivial
    | some start =>
      cases start with
      | count => exact .andThen (.lift (displaced_readCount r f (t :: rest))) fun p q hpq => .done hpq
      | operator kinds =>
        exact .andThen (lockstep_readOperator (hinner.restrict _ _) r t kinds [] rest _ _)
          fun p q hpq => .done ⟨hpq.value, hpq.rest⟩
      | single operation => exact .done ⟨(relocate_of_single hsame).symm, rfl⟩

theorem lockstep_readPrefixes (ts : List Token) (h : ts.length ≤ bound)
    (h' : (relocated f [] ts).length ≤ bound') :
    CubeLang.Lockstep f (Parsed.Displaced f (List.map (Affix.relocate f)))
      (r.readPrefixes inner ts h) ((r.moved f).readPrefixes inner' (relocated f [] ts) h') := by
  unfold readPrefixes
  refine .andThen (lockstep_readAffix? hinner r .prefixed ts h h') fun o o' hoo' => ?_
  match o, o', hoo' with
  | none, none, _ => exact .done ⟨rfl, rfl⟩
  | some p, some q, hpq =>
    obtain ⟨a, rest, hlt⟩ := p
    obtain ⟨_, _, hlt'⟩ := q
    obtain ⟨hvalue, hrest⟩ := hpq
    dsimp only at hvalue hrest
    subst hvalue hrest
    refine .andThen (lockstep_readPrefixes rest _ _) fun p q hpq => .done ⟨?_, hpq.rest⟩
    show Affix.relocate f a :: q.value = (a :: p.value).map (Affix.relocate f)
    rw [hpq.value, List.map_cons]
termination_by ts.length

theorem lockstep_readSuffixes (hf : Monotone f) (s : Script) (ts : List Token)
    (h : ts.length ≤ bound) (h' : (relocated f [] ts).length ≤ bound') :
    CubeLang.Lockstep f (Parsed.Displaced f (Script.relocate f)) (r.readSuffixes inner s ts h)
      ((r.moved f).readSuffixes inner' (s.relocate f) (relocated f [] ts) h') := by
  unfold readSuffixes
  refine .andThen (lockstep_readAffix? hinner r .suffixed ts h h') fun o o' hoo' => ?_
  match o, o', hoo' with
  | none, none, _ => exact .done ⟨rfl, rfl⟩
  | some p, some q, hpq =>
    obtain ⟨a, rest, hlt⟩ := p
    obtain ⟨_, _, hlt'⟩ := q
    obtain ⟨hvalue, hrest⟩ := hpq
    dsimp only at hvalue hrest
    subst hvalue hrest
    dsimp only
    rw [Affix.wrap_relocate hf]
    exact .andThen (lockstep_readSuffixes hf _ rest _ _) fun p q hpq => .done ⟨hpq.value, hpq.rest⟩
termination_by ts.length

/-! ## Statements -/

omit hinner in
theorem displaced_close (c : Compound) (start : Nat) (t : Token) :
    Displaced f (fun s s' => s' = s.relocate f) (c.close start t)
      ((c.relocate f).close (f start) (t.relocate f)) := by
  cases hclose : c.close start t with
  | ok s =>
    rw [Compound.close_relocate hclose]
    exact .ok rfl
  | error e =>
    obtain ⟨kinds, first, second⟩ := c
    rw [← hclose]
    cases second with
    | none =>
      simp only [Compound.close, Compound.relocate, Option.map_none] at hclose ⊢
      split
      case h_4 => exact .error (by simp [ParseError.relocate])
      all_goals simp_all
    | some p =>
      simp only [Compound.close, Compound.relocate, Option.map_some] at hclose ⊢
      split
      · simp_all
      · exact .error (by simp [ParseError.relocate])

theorem lockstep_readCompound (start : Nat) (c : Compound) (ts : List Token)
    (h : ts.length < bound) (h' : (relocated f [] ts).length < bound') :
    CubeLang.Lockstep f (Parsed.Displaced f (Script.relocate f)) (r.readCompound inner start c ts h)
      ((r.moved f).readCompound inner' (f start) (c.relocate f) (relocated f [] ts) h') := by
  cases ts with
  | nil =>
    have hbound : ([] : List Token).length < bound' := h'
    show CubeLang.Lockstep f _ _
      ((r.moved f).readCompound inner' (f start) (c.relocate f) [] hbound)
    rw [readCompound, readCompound]
    exact .failAt .closingMissing (r.peek [])
  | cons t rest =>
    have hbound : (t.relocate f :: relocated f [] rest).length < bound' := h'
    show CubeLang.Lockstep f _ _ ((r.moved f).readCompound inner' (f start) (c.relocate f)
      (t.relocate f :: relocated f [] rest) hbound)
    rw [readCompound, readCompound]
    dsimp +instances only [closedBy_relocate, dividedBy_relocate, closedBy_resized,
      dividedBy_resized]
    refine .ite (fun _ => ?_) fun _ => .ite (fun _ => ?_) fun _ => ?_
    · have hclose := displaced_close (f := f)
        { c with kinds := c.kinds.filter fun k => (r.closedBy t).contains k } start t
      exact .andThen (.lift hclose) fun s s' hs => .done ⟨hs, rfl⟩
    · refine .ite (fun _ => .failAt _ _) fun _ => ?_
      have hsecond : (c.relocate f).second.isSome = c.second.isSome := Option.isSome_map
      rw [hsecond]
      refine .ite (fun _ => .failAt _ _) fun _ => ?_
      have hothers := lockstep_readCompound start
        { c with
          kinds := c.kinds.filter fun k => (r.dividedBy t).contains k
          second := some (t.span, []) } rest (Nat.lt_trans (Nat.lt_succ_self _) h)
        (Nat.lt_trans (Nat.lt_succ_self _) hbound)
      simp only [Compound.relocate, Option.map_some, List.map_nil, ← Token.span_relocate] at hothers
      exact .andThen hothers fun p q hpq => .done ⟨hpq.value, hpq.rest⟩
    · refine .andThen (hinner _ h h') fun p q hpq => ?_
      obtain ⟨s, rest', hlt⟩ := p
      obtain ⟨_, _, hlt'⟩ := q
      obtain ⟨hvalue, hrest⟩ := hpq
      dsimp only at hvalue hrest
      subst hvalue hrest
      dsimp only
      rw [Compound.push_relocate]
      exact .andThen (lockstep_readCompound start _ rest' _ _) fun p q hpq =>
        .done ⟨hpq.value, hpq.rest⟩
termination_by ts.length

variable (hf : Monotone f)
variable (hexpand : ∀ t, CubeLang.Lockstep f (fun s s' => s' = s) (r.expand t)
  (r.expand (t.relocate f)))
include hf hexpand

theorem lockstep_readStatement (ts : List Token) (h : ts.length ≤ bound)
    (h' : (relocated f [] ts).length ≤ bound') :
    CubeLang.Lockstep f (Parsed.Displaced f (Script.relocate f))
      (r.readStatement ts (inner.restrict h))
      ((r.moved f).readStatement (relocated f [] ts) (inner'.restrict h')) := by
  cases ts with
  | nil => exact .failAt .statementExpected (r.peek [])
  | cons t rest =>
    have hpermutation : ∀ (leading : Option Token) (ts ts' : List Token),
        ts' = relocated f [] ts → ∀ (h : ts.length ≤ rest.length)
        (h' : ts'.length ≤ (relocated f [] rest).length),
        CubeLang.Lockstep f (Parsed.Displaced f (Script.relocate f))
          (do
            let p ← Reader.lift (r.readPermutation t.start leading ts)
            return p.widen (Nat.le_succ_of_le h) : Reader (Parsed (t :: rest).length Script))
          (do
            let p ← Reader.lift ((r.moved f).readPermutation (f t.start)
              (leading.map (Token.relocate f)) ts')
            return p.widen (Nat.le_succ_of_le h') :
              Reader (Parsed (t.relocate f :: relocated f [] rest).length Script)) := by
      rintro leading ts _ rfl h h'
      exact .andThen (.lift (displaced_readPermutation r hf t.start leading ts))
        fun p q hpq => .done ⟨hpq.value, hpq.rest⟩
    show CubeLang.Lockstep f _ _ ((r.moved f).readStatement (t.relocate f :: relocated f [] rest)
      (inner'.restrict h'))
    have hstart : (r.moved f).statementStart? (t.relocate f) = r.statementStart? t := rfl
    rw [readStatement_cons, readStatement_cons, hstart]
    cases r.statementStart? t with
    | none => exact .failAt _ _
    | some start =>
      cases start with
      | move move => exact .done ⟨by simp [Script.relocate], rfl⟩
      | macroUse =>
        refine .andThen (hexpand t) fun s s' hs => .done ⟨?_, rfl⟩
        subst hs
        simp [Script.relocate]
      | nop => exact .done ⟨by simp [Script.relocate], rfl⟩
      | sign =>
        dsimp +instances only [grammar_resized]
        rw [peek_moved, Grammar.isA_relocate]
        refine .ite (fun _ => .failAt _ _) fun _ => ?_
        exact hpermutation (some t) rest.tail _ (tail_relocated_nil f rest)
          (length_tail_le_self rest) (length_tail_le_self _)
      | bracket =>
        have hopens : (r.moved f).opensCycle (t.relocate f) (relocated f [] rest) =
            r.opensCycle t rest := by
          rw [opensCycle, peek_moved]
          rfl
        dsimp +instances only [Token.start_relocate, openedBy_relocate, openedBy_resized]
        rw [hopens]
        refine .ite (fun _ => ?_) fun _ => .ite (fun _ => .failAt _ _) fun _ => ?_
        · exact hpermutation none rest _ rfl (length_le_self rest) (length_le_self _)
        · exact .andThen (lockstep_readCompound (hinner.restrict _ _) r t.start
            { kinds := r.openedBy t } rest _ _) fun p q hpq => .done ⟨hpq.value, hpq.rest⟩

theorem lockstep_readConstruct (ts : List Token) (h : ts.length ≤ bound)
    (h' : (relocated f [] ts).length ≤ bound') :
    CubeLang.Lockstep f (Parsed.Displaced f (Script.relocate f))
      (r.readConstruct ts (inner.restrict h))
      ((r.moved f).readConstruct (relocated f [] ts) (inner'.restrict h')) := by
  unfold readConstruct
  refine .andThen (lockstep_readPrefixes (hinner.restrict _ _) r ts _ _) fun p q hpq => ?_
  obtain ⟨affixes, rest, hlt⟩ := p
  obtain ⟨_, _, hlt'⟩ := q
  obtain ⟨hvalue, hrest⟩ := hpq
  dsimp only at hvalue hrest
  subst hvalue hrest
  have hle : rest.length ≤ bound := Nat.le_trans (Nat.le_of_lt_succ hlt) h
  have hle' : (relocated f [] rest).length ≤ bound' := Nat.le_trans (Nat.le_of_lt_succ hlt') h'
  refine .andThen (lockstep_readStatement hinner r hf hexpand rest hle hle') fun p q hpq => ?_
  obtain ⟨s, rest', hlt⟩ := p
  obtain ⟨_, _, hlt'⟩ := q
  obtain ⟨hvalue, hrest⟩ := hpq
  dsimp only at hvalue hrest
  subst hvalue hrest
  dsimp only
  rw [Affix.foldr_wrap_relocate hf]
  exact .andThen (lockstep_readSuffixes (hinner.restrict _ _) r hf _ rest' _ _) fun p q hpq =>
    .done ⟨hpq.value, hpq.rest⟩

end

/-! ## Expressions -/

section

variable (r : Reading) (hf : Monotone f)
variable (hexpand : ∀ t, CubeLang.Lockstep f (fun s s' => s' = s) (r.expand t)
  (r.expand (t.relocate f)))
include hf hexpand

theorem lockstep_readExpression (ts : List Token) :
    CubeLang.Lockstep f (Parsed.Displaced f (Script.relocate f)) (r.readExpression ts)
      ((r.moved f).readExpression (relocated f [] ts)) := by
  have hinner : Inner.Lockstep f (fun ts' (_ : ts'.length < ts.length) => r.readExpression ts')
      (fun ts' (_ : ts'.length < (relocated f [] ts).length) =>
        (r.moved f).readExpression ts') := fun ts' h _ => lockstep_readExpression ts'
  have hconstruct : CubeLang.Lockstep f (Parsed.Displaced f (Script.relocate f))
      (r.readConstruct ts fun ts' _ => r.readExpression ts')
      ((r.moved f).readConstruct (relocated f [] ts) fun ts' _ => (r.moved f).readExpression ts') :=
    lockstep_readConstruct hinner r hf hexpand ts (length_le_self _) (length_le_self _)
  -- What follows a construct depends on it through a proof, so it is taken memory by memory.
  intro m
  obtain ⟨p, q, m', hread, hread', hpq⟩ | ⟨e, m', hread, hread'⟩ := hconstruct.eq_or_eq m
  · obtain ⟨s, rest, hlt⟩ := p
    obtain ⟨_, _, hlt'⟩ := q
    obtain ⟨hvalue, hrest⟩ := hpq
    dsimp only at hvalue hrest
    subst hvalue hrest
    have hoperator : (r.moved f).infixOf? ((r.moved f).peek (relocated f [] rest)) =
        r.infixOf? (r.peek rest) := by
      rw [peek_moved]
      rfl
    cases hinfix : r.infixOf? (r.peek rest) with
    | none =>
      rw [readExpression_of_end hread hinfix,
        readExpression_of_end hread' (hoperator.trans hinfix)]
      exact ⟨.ok ⟨rfl, rfl⟩, rfl⟩
    | some operator =>
      obtain ⟨k, place⟩ := operator
      rw [readExpression_of_operator hread hinfix,
        readExpression_of_operator hread' (hoperator.trans hinfix)]
      have hother := lockstep_readExpression rest.tail
      rw [← tail_relocated_nil] at hother
      refine (hother.andThen fun p q hpq => .done ⟨?_, hpq.rest⟩) m'
      have hspan : (⟨(s.relocate f).span.start, q.value.span.stop⟩ : Span) =
          Span.relocate f ⟨s.span.start, p.value.span.stop⟩ := by
        simp [hpq.value, Span.relocate]
      dsimp only
      rw [hspan, hpq.value, apply_ite (Script.relocate f), BinaryKind.combine_relocate,
        BinaryKind.combine_relocate]
  · rw [readExpression, readExpression, bind_of_error hread, bind_of_error hread']
    exact ⟨.error rfl, rfl⟩
termination_by ts.length

theorem lockstep_readAll (ts : List Token) :
    CubeLang.Lockstep f (fun scripts scripts' => scripts' = scripts.map (Script.relocate f))
      (r.readAll ts) ((r.moved f).readAll (relocated f [] ts)) := by
  cases ts with
  | nil =>
    rw [relocated_nil, readAll, readAll]
    exact .done rfl
  | cons t rest =>
    have hfirst := lockstep_readExpression r hf hexpand (t :: rest)
    rw [relocated_cons] at hfirst ⊢
    rw [readAll, readAll]
    refine .andThen hfirst fun p q hpq => ?_
    obtain ⟨s, rest', hlt⟩ := p
    obtain ⟨_, _, hlt'⟩ := q
    obtain ⟨hvalue, hrest⟩ := hpq
    dsimp only at hvalue hrest
    subst hvalue hrest
    refine .andThen (lockstep_readAll rest') fun scripts scripts' hscripts => .done ?_
    rw [hscripts, List.map_cons]
termination_by ts.length
decreasing_by exact hlt

end

end Reading

end CubeLang
