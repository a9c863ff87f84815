import CubeLang.Grammar.Affixes
import CubeLang.Grammar.Permutation

/-!
# Reading statements

A statement is a move, the use of a macro, a pause, a cycle of parts, or scripts in brackets. A
bracket may open several kinds of statement. Whether it opens a cycle is settled by the next token;
which of the other kinds was meant, by the delimiter inside and the bracket that closes it.
-/

set_option autoImplicit false

namespace CubeLang.Reading

/-- The kinds of compound statement whose brackets a notation uses; a grouping always may. -/
def bracketed (r : Reading) (k : CompoundKind) : Bool :=
  match k with
  | .grouping => true
  | .inversion => r.grammar.fixity .inversion = .circumfixed
  | .reflection => r.grammar.fixity .reflection = .circumfixed
  | .binary k => r.grammar.fixity k.composite = .precircumfixed

/-- The kinds of compound statement that a token opens. -/
def openedBy (r : Reading) (t : Token) : List CompoundKind :=
  CompoundKind.all.filter fun k => r.bracketed k && r.grammar.isA k.opening t

/-- The kinds of compound statement that a token closes. -/
def closedBy (r : Reading) (t : Token) : List CompoundKind :=
  CompoundKind.all.filter fun k => r.bracketed k && r.grammar.isA k.closing t

/-- The kinds of compound statement whose two scripts a token parts. -/
def dividedBy (r : Reading) (t : Token) : List CompoundKind :=
  CompoundKind.all.filter fun k =>
    match k with
    | .binary b => r.bracketed k && r.grammar.isA b.delimiter t
    | _ => false

/-- What was read of a compound statement: its first script, whose span starts at the bracket,
and its second one if there was a delimiter, with the places where the first one stopped and the
second one started. -/
structure Compound where
  kinds : List CompoundKind
  first : List Script := []
  second : Option (Span × List Script) := none

/-- The compound with one more script in its current part. -/
def Compound.push (c : Compound) (s : Script) : Compound :=
  match c.second with
  | none => { c with first := c.first ++ [s] }
  | some (gap, scripts) => { c with second := some (gap, scripts ++ [s]) }

/-- The statement that a compound makes between its bracket and the bracket that closes it, if
exactly one kind fits. -/
def Compound.close (c : Compound) (start : Nat) (closing : Token) :
    Except ParseError Script :=
  let span : Span := ⟨start, closing.stop⟩
  match c.second with
  | some (gap, scripts) =>
    match c.kinds.filter CompoundKind.isBinary with
    | [.binary k] =>
      .ok (k.combine span (.sequence ⟨start, gap.start⟩ c.first)
        (.sequence ⟨gap.stop, closing.start⟩ scripts))
    | kinds => .error ⟨.compound kinds, span, none⟩
  | none =>
    let first := Script.sequence ⟨start, closing.start⟩ c.first
    match c.kinds.filter fun k => !k.isBinary with
    | [.grouping] => .ok (.grouping span c.first)
    | [.inversion] => .ok (.inversion span first)
    | [.reflection] => .ok (.reflection span first)
    | kinds => .error ⟨.compound kinds, span, none⟩

/-- Reads the rest of a compound statement. A token that both closes and parts closes. -/
def readCompound (r : Reading) {bound : Nat} (inner : Inner bound) (start : Nat) (c : Compound)
    (ts : List Token) (h : ts.length < bound) : Reader (Parsed ts.length Script) :=
  match ts with
  | [] => throw (.ofToken .closingMissing (r.peek []))
  | t :: rest => do
    let closed := r.closedBy t
    let divided := r.dividedBy t
    if !closed.isEmpty then
      let c := { c with kinds := c.kinds.filter fun k => closed.contains k }
      let s ← Reader.lift (c.close start t)
      return ⟨s, rest, by simp⟩
    else if !divided.isEmpty then
      let kinds := c.kinds.filter fun k => divided.contains k
      if kinds.isEmpty then throw (.ofToken .illegalDelimiter t)
      if c.second.isSome then throw (.ofToken .secondDelimiter t)
      let c := { c with kinds, second := some (t.span, []) }
      let p ← r.readCompound inner start c rest (by simp only [List.length_cons] at h; omega)
      return p.widen (by simp)
    else
      let p ← inner (t :: rest) h
      have hrest := p.shorter
      let p' ← r.readCompound inner start (c.push p.value) p.rest (Nat.lt_trans hrest h)
      return p'.widen (Nat.le_of_lt hrest)
termination_by ts.length
decreasing_by all_goals (simp only [List.length_cons] at *; omega)

/-- Reads a statement. -/
def readStatement (r : Reading) (ts : List Token) (inner : Inner ts.length) :
    Reader (Parsed ts.length Script) :=
  let g := r.grammar
  match ts with
  | [] => throw (.ofToken .statementExpected (r.peek []))
  | t :: rest => do
    if !t.isKeyword then throw (.ofToken .statementExpected t)
    let one (s : Script) : Parsed (t :: rest).length Script := ⟨s, rest, by simp⟩
    let permutation (leading : Option Token) (ts : List Token) (h : ts.length ≤ rest.length) :
        Reader (Parsed (t :: rest).length Script) := do
      let p ← Reader.lift (r.readPermutation t.start leading ts)
      return p.widen (by simp only [List.length_cons]; omega)
    match if g.isA .move t then g.terms.move? t.text else none with
    | some m => return one (.move t.span m)
    | none =>
    if g.macros.contains t.text then
      let body ← r.expand t
      return one (.macroUse t.span t.text body)
    if g.isA .nop t then return one (.nop t.span)
    if g.fixity .permutation = .prefixed && (r.signOf? t).isSome then
      if !g.isA .permutationBegin (r.peek rest) then
        throw (.ofToken .permutationOpeningExpected (r.peek rest))
      return ← permutation (some t) rest.tail (length_tail_le_self rest)
    let opened := r.openedBy t
    let isPermutation := g.terms.supports .permutation && g.isA .permutationBegin t
    let continues := (g.symbols (r.peek rest)).any fun s => s.isPartOf .permutation
    if isPermutation && (opened.isEmpty || continues) then
      return ← permutation none rest (length_le_self rest)
    if opened.isEmpty then throw (.ofToken .illegalStatement t)
    let p ← r.readCompound inner t.start { kinds := opened } rest (by simp)
    return p.widen (by simp)

end CubeLang.Reading
