import CubeLang.Grammar.Basic

/-!
# Reading affixes

The operators in front of and behind a statement. Which of them stand where is a matter of their
fixities; a number is always a repeat count. A conjugation, commutation or rotation as an affix has
its operator in brackets, which holds one expression after the other.

The readers of this file and the next are given a reader `inner` for the expressions inside, which
works on fewer tokens than they have themselves.
-/

set_option autoImplicit false

namespace CubeLang.Reading

/-- A reader of expressions for lists of less than `bound` tokens. -/
abbrev Inner (bound : Nat) : Type :=
  (ts : List Token) → ts.length < bound → Reader (Parsed ts.length Script)

/-- A reader for longer lists is one for shorter lists. -/
def Inner.restrict {m n : Nat} (inner : Inner n) (h : m ≤ n) : Inner m :=
  fun ts hts => inner ts (Nat.lt_of_lt_of_le hts h)

/-- Reads a repeat count: a number, perhaps between two tokens for that alone. -/
def readCount (r : Reading) (ts : List Token) : Except ParseError (Parsed ts.length Affix) :=
  let g := r.grammar
  let start := r.peek ts
  let opened := if g.isOnly .repetitionBegin start then ts.tail else ts
  have hopened : opened.length ≤ ts.length := by
    simp only [opened]
    split <;> simp
  match hnumber : opened with
  | [] => .error (.ofToken .repeatCountMissing (r.peek []))
  | number :: rest =>
    match number.value? with
    | none => .error (.ofToken .repeatCountMissing number)
    | some value =>
      match RepeatCount.ofInt? value with
      | none => .error (.ofToken (.repeatCount value) number)
      | some count =>
        have : (number :: rest).length ≤ ts.length := hnumber ▸ hopened
        have := length_tail_le_self rest
        if g.isOnly .repetitionEnd (r.peek rest) then
          .ok ⟨⟨.repetition count, ⟨start.start, (r.peek rest).stop⟩⟩, rest.tail,
            by simp only [List.length_cons] at *; omega⟩
        else
          .ok ⟨⟨.repetition count, ⟨start.start, number.stop⟩⟩, rest,
            by simp only [List.length_cons] at *; omega⟩

/-- The span of some scripts that follow a token. -/
def operatorSpan (opening : Token) (scripts : List Script) : Span :=
  ⟨opening.stop, (scripts.getLast?.map fun s => s.span.stop).getD opening.stop⟩

/-- Reads the operator of an affix, of which some expressions were read already, up to the first
bracket that closes one of the kinds that may be meant. -/
def readOperator (r : Reading) {bound : Nat} (inner : Inner bound) (opening : Token)
    (kinds : List BinaryKind) (before : List Script) (ts : List Token) (h : ts.length < bound) :
    Reader (Parsed ts.length Affix) := do
  let p ← inner ts h
  let scripts := before ++ [p.value]
  let t := r.peek p.rest
  if !t.isKeyword then throw (.ofToken .affixStatementMissing t)
  have hrest := p.shorter
  match kinds.find? fun k => r.grammar.isA k.closing t with
  | some k =>
    let operator := Script.sequence (operatorSpan opening scripts) scripts
    return ⟨⟨.binary k operator, ⟨opening.start, t.stop⟩⟩, p.rest.tail,
      by simp only [List.length_tail]; omega⟩
  | none =>
    let p' ← r.readOperator inner opening kinds scripts p.rest (Nat.lt_trans hrest h)
    return p'.widen (Nat.le_of_lt hrest)
termination_by ts.length

/-- Reads an affix with the fixity `place`, if the next token begins one. -/
def readAffix? (r : Reading) (place : Fixity) (ts : List Token) (inner : Inner ts.length) :
    Reader (Option (Parsed ts.length Affix)) :=
  let g := r.grammar
  match ts with
  | [] => return none
  | t :: rest =>
    let isAffix (s : Symbol) : Bool := g.fixity s = place
    let one (op : Affix.Operation) : Parsed (t :: rest).length Affix :=
      ⟨⟨op, t.span⟩, rest, by simp⟩
    match t.kind with
    | .number _ =>
      if isAffix .repetition then do
        let p ← Reader.lift (r.readCount (t :: rest))
        return some p
      else return none
    | .keyword =>
      if BinaryKind.commutationFirst.any fun k => isAffix k.composite && g.isA k.opening t then do
        let kinds := BinaryKind.conjugationFirst.filter fun k =>
          g.isA k.opening t && (g.fixity k.composite = .prefixed || g.fixity k.composite = .suffixed)
        let p ← r.readOperator inner t kinds [] rest (by simp)
        return some (p.widen (by simp))
      else if isAffix .inversion && g.isA .inversionOperator t then return some (one .inversion)
      else if isAffix .repetition && g.isA .repetitionBegin t then do
        let p ← Reader.lift (r.readCount (t :: rest))
        return some p
      else if isAffix .reflection && g.isA .reflectionOperator t then
        return some (one .reflection)
      else return none
    | _ => return none

/-- Reads the affixes in front of a statement, the outermost first. -/
def readPrefixes (r : Reading) {bound : Nat} (inner : Inner bound) (ts : List Token)
    (h : ts.length ≤ bound) : Reader (Parsed (ts.length + 1) (List Affix)) := do
  match ← r.readAffix? .prefixed ts (inner.restrict h) with
  | none => return ⟨[], ts, Nat.lt_succ_self _⟩
  | some p =>
    have hrest := p.shorter
    let p' ← r.readPrefixes inner p.rest (by omega)
    return (p'.map (p.value :: ·)).widen (by omega)
termination_by ts.length

/-- Reads the affixes behind a script and wraps it into them, one after the other. -/
def readSuffixes (r : Reading) {bound : Nat} (inner : Inner bound) (s : Script) (ts : List Token)
    (h : ts.length ≤ bound) : Reader (Parsed (ts.length + 1) Script) := do
  match ← r.readAffix? .suffixed ts (inner.restrict h) with
  | none => return ⟨s, ts, Nat.lt_succ_self _⟩
  | some p =>
    have hrest := p.shorter
    let p' ← r.readSuffixes inner (p.value.wrap s) p.rest (by omega)
    return p'.widen (by omega)
termination_by ts.length

end CubeLang.Reading
