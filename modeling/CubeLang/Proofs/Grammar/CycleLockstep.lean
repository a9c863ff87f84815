import CubeLang.Proofs.Control
import CubeLang.Proofs.Grammar.CycleRelocation

/-!
# Reading in lockstep

Tokens at other offsets are read as the same scripts, or refused for the same cause, with all offsets
moved. So two readers that are given the same tokens in different places go in lockstep: a relation
between their results that is kept when readers are composed. This file has the relation and shows it
of the readers of cycles.
-/

set_option autoImplicit false

namespace CubeLang

variable {α β γ δ : Type} {f : Nat → Nat}

/-- An error whose place was moved. -/
def ParseError.relocate (f : Nat → Nat) (e : ParseError) : ParseError :=
  { e with span := e.span.relocate f }

theorem ParseError.relocate_ofToken (cause : ParseError.Cause) (t : Token) :
    (ParseError.ofToken cause t).relocate f = .ofToken cause (t.relocate f) := by
  simp [relocate, ofToken]

/-- How something ends in another place: it gives what is related to what was given, or fails for the
same cause. -/
inductive Displaced (f : Nat → Nat) (R : α → β → Prop) :
    Except ParseError α → Except ParseError β → Prop
  | ok {a : α} {b : β} (h : R a b) : Displaced f R (.ok a) (.ok b)
  | error {e e' : ParseError} (h : e' = e.relocate f) : Displaced f R (.error e) (.error e')

namespace Displaced

variable {R : α → β → Prop} {x x' : Except ParseError α} {y y' : Except ParseError β}

theorem ofToken (cause : ParseError.Cause) (t : Token) :
    Displaced f R (.error (.ofToken cause t)) (.error (.ofToken cause (t.relocate f))) :=
  .error (ParseError.relocate_ofToken cause t).symm

theorem eq_or_eq (h : Displaced f R x y) : (∃ a b, x = .ok a ∧ y = .ok b ∧ R a b) ∨
    ∃ e, x = .error e ∧ y = .error (e.relocate f) := by
  cases h with
  | ok h => exact Or.inl ⟨_, _, rfl, rfl, h⟩
  | error h => exact Or.inr ⟨_, rfl, h ▸ rfl⟩

theorem ite {c : Prop} [Decidable c] (hx : c → Displaced f R x y) (hy : ¬c → Displaced f R x' y') :
    Displaced f R (if c then x else x') (if c then y else y') := by
  by_cases hc : c
  · simpa only [if_pos hc] using hx hc
  · simpa only [if_neg hc] using hy hc

end Displaced

/-- Two steps go in lockstep: from one memory they come to one memory, and end alike. -/
def Lockstep (f : Nat → Nat) (R : α → β → Prop) (x : Reader α) (y : Reader β) : Prop :=
  ∀ m, Displaced f R (outcome (x m)) (outcome (y m)) ∧ stateAfter (x m) = stateAfter (y m)

namespace Lockstep

variable {R : α → β → Prop} {S : γ → δ → Prop} {x x' : Reader α} {y y' : Reader β}

theorem done {a : α} {b : β} (h : R a b) : Lockstep f R (pure a) (pure b) :=
  fun _ => ⟨.ok h, rfl⟩

theorem fail {e e' : ParseError} (h : e' = e.relocate f) : Lockstep f R (throw e) (throw e') :=
  fun _ => ⟨.error h, rfl⟩

theorem failAt (cause : ParseError.Cause) (t : Token) :
    Lockstep f R (throw (.ofToken cause t)) (throw (.ofToken cause (t.relocate f))) :=
  .fail (ParseError.relocate_ofToken cause t).symm

theorem lift {a : Except ParseError α} {b : Except ParseError β} (h : Displaced f R a b) :
    Lockstep f R (Reader.lift a) (Reader.lift b) := by
  cases h with
  | ok h => exact .done h
  | error h => exact .fail h

theorem ite {c : Prop} [Decidable c] (hx : c → Lockstep f R x y) (hy : ¬c → Lockstep f R x' y') :
    Lockstep f R (if c then x else x') (if c then y else y') := by
  by_cases hc : c
  · simpa only [if_pos hc] using hx hc
  · simpa only [if_neg hc] using hy hc

/-- From a memory, steps in lockstep come to the same memory with related results, or with the same
cause for a failure. -/
theorem eq_or_eq (h : Lockstep f R x y) (m : Memory) :
    (∃ a b m', x m = .ok a m' ∧ y m = .ok b m' ∧ R a b) ∨
      ∃ e m', x m = .error e m' ∧ y m = .error (e.relocate f) m' := by
  obtain ⟨hends, hstate⟩ := h m
  cases hx : x m with
  | ok a s =>
    cases hy : y m with
    | ok b s' =>
      rw [hx, hy] at hends hstate
      obtain rfl : s = s' := hstate
      cases hends with
      | ok h => exact Or.inl ⟨a, b, s, rfl, rfl, h⟩
    | error e s' =>
      rw [hx, hy] at hends
      nomatch hends
  | error e s =>
    cases hy : y m with
    | ok b s' =>
      rw [hx, hy] at hends
      nomatch hends
    | error e' s' =>
      rw [hx, hy] at hends hstate
      obtain rfl : s = s' := hstate
      cases hends with
      | error h => exact Or.inr ⟨e, s, rfl, h ▸ rfl⟩

/-- Steps that go in lockstep one after the other do so together. -/
theorem andThen {g : α → Reader γ} {k : β → Reader δ} (hx : Lockstep f R x y)
    (hg : ∀ a b, R a b → Lockstep f S (g a) (k b)) : Lockstep f S (x >>= g) (y >>= k) := by
  intro m
  obtain ⟨a, b, m', hxm, hym, hab⟩ | ⟨e, m', hxm, hym⟩ := hx.eq_or_eq m
  · rw [bind_of_ok hxm, bind_of_ok hym]
    exact hg a b hab m'
  · rw [bind_of_error hxm, bind_of_error hym]
    exact ⟨.error rfl, rfl⟩

end Lockstep

/-- What was read from tokens in another place: it is moved, and so are the tokens left over. -/
structure Parsed.Displaced {m n : Nat} (f : Nat → Nat) (g : α → β) (p : Parsed m α)
    (q : Parsed n β) : Prop where
  value : q.value = g p.value
  rest : q.rest = relocated f [] p.rest

namespace Reading

/-- The reading of a text of which all offsets were moved. -/
abbrev moved (r : Reading) (f : Nat → Nat) : Reading := r.resized (f r.length)

/-- The next token, also if it is the end of the text, is the same in the other place. -/
theorem peek_moved (r : Reading) (f : Nat → Nat) (ts : List Token) :
    (r.moved f).peek (relocated f [] ts) = (r.peek ts).relocate f := by
  cases ts <;> rfl

theorem tail_relocated_nil (f : Nat → Nat) (ts : List Token) :
    (relocated f [] ts).tail = relocated f [] ts.tail := by
  cases ts <;> rfl

/-! ## Parts -/

theorem displaced_readPart (r : Reading) (f : Nat → Nat) (cycle : PartCycle) (ts : List Token) :
    Displaced f (Parsed.Displaced f id) (r.readPart cycle ts)
      ((r.moved f).readPart cycle (relocated f [] ts)) := by
  have hnothing : ∀ rest, Hidden [] rest := fun _ => Or.inl rfl
  have hsnd : (fun face : Token × Symbol => face.2) = Prod.snd := rfl
  rw [readPart_eq, readPart_eq]
  simp only [facesOfPart_relocated _ (hnothing _), kindOfPart_relocated _ (hnothing _),
    numberOfPart_relocated _ (hnothing _), signOfPart_relocated _ (hnothing _), signBehind_relocated _ (hnothing _),
    List.length_map, List.map_map, Function.comp_def, hsnd, peek_moved, Token.text_relocate]
  by_cases hfaces : (r.facesOfPart ts).1.length = 0
  · rw [dif_pos hfaces, dif_pos hfaces]
    exact .ofToken _ _
  rw [dif_neg hfaces, dif_neg hfaces]
  refine .ite (fun _ => .error (by simp [ParseError.relocate])) fun _ => ?_
  cases partNumber r.grammar.terms.layerCount (r.kindOfPart ts) (r.numberOfPart ts).1 with
  | error cause => exact .ofToken _ _
  | ok part =>
    dsimp only
    split
    · refine .error ?_
      split <;> simp [ParseError.relocate]
    · exact .ok ⟨rfl, rfl⟩

/-! ## Cycles -/

theorem displaced_readParts (r : Reading) (f : Nat → Nat) (cycle : PartCycle) (ts : List Token) :
    Displaced f (Parsed.Displaced f (Closed.relocate f)) (r.readParts cycle ts)
      ((r.moved f).readParts cycle (relocated f [] ts)) := by
  cases ts with
  | nil =>
    rw [relocated_nil, readParts, readParts]
    exact .ofToken _ _
  | cons t rest =>
    have hpart := displaced_readPart r f cycle (t :: rest)
    rw [relocated_cons] at hpart ⊢
    rw [readParts, readParts]
    refine .ite (fun _ => .ok ⟨rfl, rfl⟩) fun _ => ?_
    rcases hpart.eq_or_eq with ⟨p, q, hp, hq, h⟩ | ⟨e, hp, hq⟩
    · obtain ⟨_, rest', hlt⟩ := p
      obtain ⟨cycle', _, hlt'⟩ := q
      obtain ⟨hcycle, hrest⟩ := h
      dsimp only [id] at hcycle hrest
      subst hcycle hrest
      have hbehind := displaced_readParts r f cycle' rest'.tail
      have hothers := displaced_readParts r f cycle' rest'
      rw [← tail_relocated_nil] at hbehind
      simp only [hp, hq, peek_moved, Grammar.isA_relocate, signOf?_resized, signOf?_relocate]
      refine .ite (fun _ => ?_) fun _ => .ite (fun _ => ?_) fun _ => ?_
      · rcases hbehind.eq_or_eq with ⟨p, q, hp, hq, h⟩ | ⟨e, hp, hq⟩
        · simp only [hp, hq]
          exact .ok ⟨h.value, h.rest⟩
        · simp only [hp, hq]
          exact .error rfl
      · have hnext : (r.moved f).peek (relocated f [] rest').tail =
            (r.peek rest'.tail).relocate f := by
          rw [tail_relocated_nil, peek_moved]
        have hrest : (relocated f [] rest').tail.tail = relocated f [] rest'.tail.tail := by
          rw [tail_relocated_nil, tail_relocated_nil]
        simp only [hnext, Grammar.isA_relocate]
        exact .ite (fun _ => .ok ⟨rfl, hrest⟩) fun _ => .ofToken _ _
      · rcases hothers.eq_or_eq with ⟨p, q, hp, hq, h⟩ | ⟨e, hp, hq⟩
        · simp only [hp, hq]
          exact .ok ⟨h.value, h.rest⟩
        · simp only [hp, hq]
          exact .error rfl
    · simp only [hp, hq]
      exact .error rfl
termination_by ts.length
decreasing_by
  all_goals
    have := length_tail_le_self rest'
    omega

theorem displaced_withSign (r : Reading) (hf : Monotone f) (span : Span) (cycle : PartCycle)
    (o : Option Token) :
    Displaced f (fun s s' => s' = s.relocate f) (r.withSign span cycle o)
      ((r.moved f).withSign (span.relocate f) cycle (o.map (Token.relocate f))) := by
  cases o with
  | none => exact .ok rfl
  | some t =>
    cases hkind : cycle.kind with
    | none =>
      simp only [Option.map_some, withSign, hkind]
      exact .ok rfl
    | some kind =>
      rw [Option.map_some, withSign_of_kind hkind, withSign_of_kind hkind]
      refine .ite (fun _ => .ofToken _ _) fun _ => ?_
      have hsign : (r.moved f).signOf? (t.relocate f) = r.signOf? t := rfl
      rw [hsign]
      cases PartCycle.signTwist (r.signOf? t) kind with
      | error fault =>
        refine .error ?_
        rw [Token.span_relocate]
        rfl
      | ok twist =>
        refine .ok ?_
        rw [Script.relocate, Span.relocate_max hf]
        rfl

theorem displaced_readPermutation (r : Reading) (hf : Monotone f) (start : Nat) (leading : Option Token)
    (ts : List Token) :
    Displaced f (Parsed.Displaced f (Script.relocate f)) (r.readPermutation start leading ts)
      ((r.moved f).readPermutation (f start) (leading.map (Token.relocate f))
        (relocated f [] ts)) := by
  have hnothing : ∀ {ts}, Hidden [] ts := Or.inl rfl
  have htaken : ∀ wanted ts, (r.moved f).takeSignIf wanted (relocated f [] ts) =
      ((r.takeSignIf wanted ts).1.map (Token.relocate f),
        relocated f [] (r.takeSignIf wanted ts).2) :=
    fun _ _ => takeSignIf_relocated _ fun _ => hnothing.next
  have hparts : Displaced f (Parsed.Displaced f (Closed.relocate f))
      (r.readParts {} (r.takeSignIf (r.grammar.fixity .permutation = .precircumfixed) ts).2)
      ((r.moved f).readParts {} ((r.moved f).takeSignIf
        (r.grammar.fixity .permutation = .precircumfixed) (relocated f [] ts)).2) := by
    rw [htaken]
    exact displaced_readParts r f {} _
  unfold readPermutation
  simp only [Option.orElse_eq_orElse, Option.orElse_eq_or, grammar_resized]
  rcases hparts.eq_or_eq with ⟨p, q, hp, hq, h⟩ | ⟨e, hp, hq⟩
  · obtain ⟨⟨cycle, sign, stop⟩, rest, hlt⟩ := p
    obtain ⟨_, _, hlt'⟩ := q
    obtain ⟨hvalue, hrest⟩ := h
    dsimp only at hvalue hrest
    subst hvalue hrest
    have hsign := displaced_withSign r hf ⟨start, stop⟩ cycle
      ((r.takeSignIf (r.grammar.fixity .permutation = .suffixed) rest).1.or
        (sign.or ((r.takeSignIf (r.grammar.fixity .permutation = .precircumfixed) ts).1.or leading)))
    rw [Span.relocate_natCast] at hsign
    simp only [hp, hq, htaken, Closed.relocate, ← Option.map_or]
    rcases hsign.eq_or_eq with ⟨s, s', hs, hs', h⟩ | ⟨e, hs, hs'⟩
    · simp only [hs, hs']
      exact .ok ⟨h, rfl⟩
    · simp only [hs, hs']
      exact .error rfl
  · simp only [hp, hq]
    exact .error rfl

end Reading

end CubeLang
