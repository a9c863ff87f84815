import CubeLang.Grammar.Expression
import CubeLang.Proofs.Control

/-!
# Readers by their first token

What a reader does, and whether it succeeds or fails, is settled by its first token or two: whether a
repeat count stands between tokens, whether an affix begins and which one, and which kind of statement
begins.
-/

set_option autoImplicit false

namespace CubeLang.Reading

variable {r : Reading} {t : Token} {ts rest : List Token} {m m' : Memory}

/-! ## Readers without a memory -/

/-- What was taken is what the reader without a memory gave. -/
theorem eq_ok_of_lift {α : Type} {x : Except ParseError α} {a : α}
    (h : Reader.lift x m = .ok a m') : x = .ok a ∧ m = m' := by
  cases x with
  | error e => contradiction
  | ok b =>
    obtain ⟨rfl, rfl⟩ := EStateM.Result.ok.inj h
    exact ⟨rfl, rfl⟩

theorem lift_of_ok {α : Type} {x : Except ParseError α} {a : α} (h : x = .ok a) :
    Reader.lift x m = .ok a m := by
  rw [h]
  rfl

theorem lift_of_error {α : Type} {x : Except ParseError α} {e : ParseError} (h : x = .error e) :
    Reader.lift x m = .error e m := by
  rw [h]
  rfl

/-! ## Repeat counts -/

/-- The tokens of a repeat count behind its opening token, if it has one. -/
def countInside (r : Reading) (ts : List Token) : List Token :=
  if r.grammar.isOnly .repetitionBegin (r.peek ts) then ts.tail else ts

/-- Where a repeat count stops, and the tokens behind it. -/
def countEnd (r : Reading) (number : Token) (rest : List Token) : Nat × List Token :=
  if r.grammar.isOnly .repetitionEnd (r.peek rest) then ((r.peek rest).stop, rest.tail)
  else (number.stop, rest)

theorem readCount_of_inside_nil (hinside : r.countInside ts = []) :
    r.readCount ts = .error (.ofToken .repeatCountMissing (r.peek [])) := by
  unfold readCount
  dsimp only
  split
  · rfl
  · rename_i hcons _
    rw [countInside, hcons] at hinside
    contradiction

/-- Reading a repeat count in terms of its pieces. -/
theorem readCount_of_inside {number : Token} (hinside : r.countInside ts = number :: rest) :
    ∃ hlt, r.readCount ts =
      match number.value? with
      | none => .error (.ofToken .repeatCountMissing number)
      | some value =>
        match RepeatCount.ofInt? value with
        | none => .error (.ofToken (.repeatCount value) number)
        | some count =>
          .ok ⟨⟨.repetition count, ⟨(r.peek ts).start, (r.countEnd number rest).1⟩⟩,
            (r.countEnd number rest).2, hlt⟩ := by
  have hlt : (r.countEnd number rest).2.length < ts.length := by
    have hle : (r.countInside ts).length ≤ ts.length := by
      unfold countInside
      split <;> simp
    rw [hinside, List.length_cons] at hle
    unfold countEnd
    split
    · have htail := length_tail_le_self rest
      dsimp only
      omega
    · exact hle
  refine ⟨hlt, ?_⟩
  unfold readCount
  dsimp only
  split
  · rename_i hnil _
    rw [countInside, hnil] at hinside
    contradiction
  · rename_i number' rest' _ _ hinside' _
    obtain ⟨rfl, rfl⟩ := List.cons.inj (hinside'.symm.trans hinside)
    cases number'.value? with
    | none => rfl
    | some value =>
      cases hcount : RepeatCount.ofInt? value with
      | none => simp only [hcount]
      | some count =>
        simp only [hcount, countEnd]
        split <;> rfl

/-! ## Affixes -/

/-- How an affix goes on behind its first token. -/
inductive AffixStart where
  | count
  | operator (kinds : List BinaryKind)
  | single (operation : Affix.Operation)

/-- The affix in some place that a token begins. -/
def affixStart? (r : Reading) (place : Fixity) (t : Token) : Option AffixStart :=
  let g := r.grammar
  let isAffix (s : Symbol) : Bool := g.fixity s = place
  match t.kind with
  | .number _ => if isAffix .repetition then some .count else none
  | .keyword =>
    if BinaryKind.commutationFirst.any fun k => isAffix k.composite && g.isA k.opening t then
      some (.operator (BinaryKind.conjugationFirst.filter fun k =>
        g.isA k.opening t && (g.fixity k.composite = .prefixed || g.fixity k.composite = .suffixed)))
    else if isAffix .inversion && g.isA .inversionOperator t then some (.single .inversion)
    else if isAffix .repetition && g.isA .repetitionBegin t then some .count
    else if isAffix .reflection && g.isA .reflectionOperator t then some (.single .reflection)
    else none
  | _ => none

/-- What is known of a token in some place with which an affix begins. -/
def AffixStart.Known (r : Reading) (place : Fixity) (t : Token) : AffixStart → Prop
  | .count => r.grammar.fixity .repetition = place
  | .operator kinds =>
    (∃ k : BinaryKind, r.grammar.fixity k.composite = place ∧ r.grammar.isA k.opening t = true) ∧
      ∀ k ∈ kinds, r.grammar.isA k.opening t = true ∧
        (r.grammar.fixity k.composite = .prefixed ∨ r.grammar.fixity k.composite = .suffixed)
  | .single operation =>
    operation = .inversion ∧ r.grammar.fixity .inversion = place ∧
        r.grammar.isA .inversionOperator t = true ∨
      operation = .reflection ∧ r.grammar.fixity .reflection = place ∧
        r.grammar.isA .reflectionOperator t = true

theorem known_of_affixStart? {place : Fixity} {start : AffixStart}
    (h : r.affixStart? place t = some start) : start.Known r place t := by
  unfold affixStart? at h
  dsimp only at h
  split at h
  · split at h
    · rename_i hplace
      obtain rfl := Option.some.inj h
      simp only [decide_eq_true_eq] at hplace
      exact hplace
    · contradiction
  · split at h
    · rename_i hopens
      obtain rfl := Option.some.inj h
      obtain ⟨k, -, hk⟩ := List.any_eq_true.mp hopens
      simp only [Bool.and_eq_true, decide_eq_true_eq] at hk
      refine ⟨⟨k, hk⟩, fun k hk => ?_⟩
      simpa using (List.mem_filter.mp hk).2
    split at h
    · rename_i hinversion
      obtain rfl := Option.some.inj h
      simp only [Bool.and_eq_true, decide_eq_true_eq] at hinversion
      exact Or.inl ⟨rfl, hinversion⟩
    split at h
    · rename_i hrepetition
      obtain rfl := Option.some.inj h
      simp only [Bool.and_eq_true, decide_eq_true_eq] at hrepetition
      exact hrepetition.1
    split at h
    · rename_i hreflection
      obtain rfl := Option.some.inj h
      simp only [Bool.and_eq_true, decide_eq_true_eq] at hreflection
      exact Or.inr ⟨rfl, hreflection⟩
    · contradiction
  · contradiction

/-- Whether an affix begins, and which one, is seen at the next token. -/
theorem readAffix?_cons (place : Fixity) (t : Token) (ts : List Token)
    (inner : Inner (t :: ts).length) :
    r.readAffix? place (t :: ts) inner =
      match r.affixStart? place t with
      | none => return none
      | some .count => do
        let p ← Reader.lift (r.readCount (t :: ts))
        return some p
      | some (.operator kinds) => do
        let p ← r.readOperator inner t kinds [] ts (Nat.lt_succ_self _)
        return some (p.widen (Nat.le_succ _))
      | some (.single operation) => return some ⟨⟨operation, t.span⟩, ts, Nat.lt_succ_self _⟩ := by
  unfold readAffix? affixStart?
  dsimp only
  cases t.kind with
  | word | endOfText => rfl
  | number value => by_cases hplace : r.grammar.fixity .repetition = place <;> simp [hplace]
  | keyword =>
    dsimp only
    split
    · rfl
    split
    · rfl
    split
    · rfl
    split
    · rfl
    · rfl

theorem affixStart?_eq_none {place : Fixity} {inner : Inner (t :: ts).length}
    (hread : r.readAffix? place (t :: ts) inner m = .ok none m') :
    r.affixStart? place t = none ∧ m = m' := by
  rw [readAffix?_cons] at hread
  split at hread
  · rename_i hstart
    exact ⟨hstart, (EStateM.Result.ok.inj hread).2⟩
  · obtain ⟨_, _, -, hread⟩ := exists_of_bind_eq_ok hread
    have hnone := (EStateM.Result.ok.inj hread).1
    contradiction
  · obtain ⟨_, _, -, hread⟩ := exists_of_bind_eq_ok hread
    have hnone := (EStateM.Result.ok.inj hread).1
    contradiction
  · have hnone := (EStateM.Result.ok.inj hread).1
    contradiction

/-! ## Statements -/

/-- What a token begins as the first one of a statement. -/
inductive StatementStart where
  | move (m : Move)
  | macroUse
  | nop
  | sign
  | bracket

/-- The kind of statement that a token begins. What the brackets stand for is seen behind it. -/
def statementStart? (r : Reading) (t : Token) : Option StatementStart :=
  let g := r.grammar
  if !t.isKeyword then none
  else match if g.isA .move t then g.terms.move? t.text else none with
    | some m => some (.move m)
    | none =>
      if g.macros.contains t.text then some .macroUse
      else if g.isA .nop t then some .nop
      else if g.fixity .permutation = .prefixed && (r.signOf? t).isSome then some .sign
      else some .bracket

/-- What is known of a token with which a statement begins. -/
def StatementStart.Known (r : Reading) (t : Token) : StatementStart → Prop
  | .move m => r.grammar.isA .move t = true ∧ r.grammar.terms.move? t.text = some m
  | .macroUse => t.isKeyword = true ∧ r.grammar.macros.contains t.text = true
  | .nop => r.grammar.isA .nop t = true
  | .sign => r.grammar.fixity .permutation = .prefixed ∧ (r.signOf? t).isSome = true
  | .bracket => t.isKeyword = true

theorem known_of_statementStart? {start : StatementStart} (h : r.statementStart? t = some start) :
    start.Known r t := by
  unfold statementStart? at h
  dsimp only at h
  split at h
  · contradiction
  rename_i hkeyword
  have hkeyword : t.isKeyword = true := by simpa using hkeyword
  split at h
  · rename_i hmove
    obtain rfl := Option.some.inj h
    exact Option.ite_none_right_eq_some.mp hmove
  split at h
  · rename_i hknown
    obtain rfl := Option.some.inj h
    exact ⟨hkeyword, hknown⟩
  split at h
  · rename_i hnop
    obtain rfl := Option.some.inj h
    exact hnop
  split at h
  · rename_i hsign
    obtain rfl := Option.some.inj h
    simp only [Bool.and_eq_true, decide_eq_true_eq] at hsign
    exact hsign
  · obtain rfl := Option.some.inj h
    exact hkeyword

/-- Whether a cycle of parts begins with a bracket in front of some tokens. -/
def opensCycle (r : Reading) (t : Token) (ts : List Token) : Bool :=
  r.grammar.terms.supports .permutation && r.grammar.isA .permutationBegin t &&
    ((r.openedBy t).isEmpty ||
      (r.grammar.symbols (r.peek ts)).any fun s => s.isPartOf .permutation)

theorem isA_of_opensCycle (h : r.opensCycle t ts = true) :
    r.grammar.isA .permutationBegin t = true := by
  simp only [opensCycle, Bool.and_eq_true] at h
  exact h.1.2

/-- Reading a statement, by its first token. -/
theorem readStatement_cons (t : Token) (ts : List Token) (inner : Inner (t :: ts).length) :
    r.readStatement (t :: ts) inner =
      match r.statementStart? t with
      | none => throw (.ofToken .statementExpected t)
      | some (.move m) => return ⟨.move t.span m, ts, Nat.lt_succ_self _⟩
      | some .macroUse => do
        let body ← r.expand t
        return ⟨.macroUse t.span t.text body, ts, Nat.lt_succ_self _⟩
      | some .nop => return ⟨.nop t.span, ts, Nat.lt_succ_self _⟩
      | some .sign =>
        if !r.grammar.isA .permutationBegin (r.peek ts) then
          throw (.ofToken .permutationOpeningExpected (r.peek ts))
        else do
          let p ← Reader.lift (r.readPermutation t.start (some t) ts.tail)
          return p.widen (Nat.le_succ_of_le (length_tail_le_self ts))
      | some .bracket =>
        if r.opensCycle t ts then do
          let p ← Reader.lift (r.readPermutation t.start none ts)
          return p.widen (Nat.le_succ _)
        else if (r.openedBy t).isEmpty then throw (.ofToken .illegalStatement t)
        else do
          let p ← r.readCompound inner t.start { kinds := r.openedBy t } ts (Nat.lt_succ_self _)
          return p.widen (Nat.le_succ _) := by
  unfold readStatement statementStart? opensCycle
  generalize hmove : (if r.grammar.isA .move t = true then r.grammar.terms.move? t.text else none) =
    move
  dsimp only
  rw [hmove]
  split
  · rfl
  cases move with
  | some m => rfl
  | none =>
    dsimp only
    split
    · rfl
    split
    · rfl
    split
    · dsimp only
      split <;> rfl
    · rfl

end CubeLang.Reading
