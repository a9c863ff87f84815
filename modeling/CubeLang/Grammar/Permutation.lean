import CubeLang.Grammar.Basic

/-!
# Reading cycles of parts

A cycle of parts stands in brackets, with a sign in front of the brackets, behind the opening one,
before the closing one or behind it, as the fixity says. Each part has one to three faces and
perhaps a number, and side parts have signs of their own: in front, or behind if the sign of the
cycle stands behind too. A delimiter may stand behind each part.
-/

set_option autoImplicit false

namespace CubeLang.Reading

/-- The sign that a token stands for. -/
def signOf? (r : Reading) (t : Token) : Option Symbol :=
  (r.grammar.symbols t).find? fun s => Symbol.signs.contains s

/-- The face that a token stands for. -/
def faceOf? (r : Reading) (t : Token) : Option Symbol :=
  (r.grammar.symbols t).find? fun s => Symbol.faces.contains s

/-- The sign token in front, if there is one, and the tokens behind it. -/
def takeSign (r : Reading) (ts : List Token) : Option Token × List Token :=
  match ts with
  | [] => (none, [])
  | t :: rest => if (r.signOf? t).isSome then (some t, rest) else (none, t :: rest)

/-- The face tokens in front, up to a number of them, and the tokens behind them. -/
def takeFaces (r : Reading) : Nat → List Token → List (Token × Symbol) × List Token
  | 0, ts => ([], ts)
  | _ + 1, [] => ([], [])
  | k + 1, t :: rest =>
    match r.faceOf? t with
    | none => ([], t :: rest)
    | some face =>
      let (faces, rest) := r.takeFaces k rest
      ((t, face) :: faces, rest)

/-- The sign token in front, where signs are to be looked for, and the tokens behind it. -/
def takeSignIf (r : Reading) (wanted : Bool) (ts : List Token) : Option Token × List Token :=
  if wanted then r.takeSign ts else (none, ts)

/-- The number in front, or zero if there is none, and the tokens behind it. -/
def takeNumber (r : Reading) (ts : List Token) : Int × List Token :=
  match (r.peek ts).value? with
  | some value => (value, ts.tail)
  | none => (0, ts)

theorem length_takeSign_le (r : Reading) (ts : List Token) :
    (r.takeSign ts).2.length ≤ ts.length := by
  cases ts with
  | nil => simp [takeSign]
  | cons t rest => by_cases h : (r.signOf? t).isSome <;> simp [takeSign, h]

theorem length_takeSignIf_le (r : Reading) (wanted : Bool) (ts : List Token) :
    (r.takeSignIf wanted ts).2.length ≤ ts.length := by
  cases wanted with
  | false => exact Nat.le_refl _
  | true => exact r.length_takeSign_le ts

theorem length_takeNumber_le (r : Reading) (ts : List Token) :
    (r.takeNumber ts).2.length ≤ ts.length := by
  unfold takeNumber
  split
  · exact length_tail_le_self ts
  · exact Nat.le_refl _

theorem length_takeFaces (r : Reading) (k : Nat) (ts : List Token) :
    (r.takeFaces k ts).1.length + (r.takeFaces k ts).2.length = ts.length := by
  induction k generalizing ts with
  | zero => simp [takeFaces]
  | succ k ih =>
    cases ts with
    | nil => simp [takeFaces]
    | cons t rest =>
      cases h : r.faceOf? t with
      | none => simp [takeFaces, h]
      | some face =>
        have := ih rest
        simp only [takeFaces, h, List.length_cons]
        omega

/-- The numbers that edge parts have in the text, by layer count; elsewhere the only number is
zero. In cubes with an even layer count they start with one. -/
def edgeNumbers (layerCount : Nat) : Int × Int :=
  match layerCount with
  | 4 => (1, 2)
  | 5 => (0, 2)
  | 6 => (1, 4)
  | 7 => (0, 4)
  | _ => (0, 0)

/-- The numbers that side parts have in the text, by layer count. -/
def sideNumbers (layerCount : Nat) : Int × Int :=
  match layerCount with
  | 4 => (1, 4)
  | 5 => (0, 8)
  | 6 => (1, 16)
  | 7 => (0, 24)
  | _ => (0, 0)

/-- The part number, counted from zero, for a number in the text. -/
def partNumber (layerCount : Nat) (kind : PartKind) (number : Int) :
    Except ParseError.Cause Int :=
  let (low, high) := match kind with
    | .corner => (0, 0)
    | .edge => edgeNumbers layerCount
    | .side => sideNumbers layerCount
  if number < low || high < number then .error (.partNumber kind layerCount number)
  else .ok (number - low)

/-- The kind of the part with a number of faces. -/
def kindOfFaces : Nat → PartKind
  | 1 => .side
  | 2 => .edge
  | _ => .corner

/-- Whether the sign of a cycle and those of its side parts stand in front. -/
def signsLead (f : Fixity) : Bool :=
  f = .precircumfixed || f = .prefixed || f = .postcircumfixed

/-- Reads one part into a cycle. An error of the part itself reaches up to the last token that was
looked at, read or not. -/
def readPart (r : Reading) (cycle : PartCycle) (ts : List Token) :
    Except ParseError (Parsed ts.length PartCycle) :=
  let f := r.grammar.fixity .permutation
  let n := r.grammar.terms.layerCount
  let start := (r.peek ts).start
  let leading := r.takeSignIf (signsLead f) ts
  let faces := r.takeFaces 3 leading.2
  let next := r.peek faces.2
  if hfaces : faces.1.length = 0 then .error (.ofToken .faceMissing next)
  else if n < 3 && faces.1.length < 3 then
    .error ⟨.partOfSmallCube (String.join (faces.1.map fun face => face.1.text)),
      ⟨start, next.stop⟩, none⟩
  else
    let kind := kindOfFaces faces.1.length
    let number := r.takeNumber faces.2
    match partNumber n kind number.1 with
    | .error cause => .error (.ofToken cause next)
    | .ok part =>
      let trails := f = .suffixed && kind = .side
      let trailing := r.takeSignIf trails number.2
      let last := if trails then r.peek number.2 else next
      let sign := (trailing.1 <|> leading.1).bind r.signOf?
      match (PartCycle.addItem kind sign (faces.1.map Prod.snd) part n).run cycle with
      | .error fault _ => .error ⟨.part fault, ⟨start, last.stop⟩, none⟩
      | .ok _ cycle =>
        have hleading : leading.2.length ≤ ts.length := r.length_takeSignIf_le _ ts
        have htaken : faces.1.length + faces.2.length = leading.2.length :=
          r.length_takeFaces 3 leading.2
        have hnumber : number.2.length ≤ faces.2.length := r.length_takeNumber_le faces.2
        have htrailing : trailing.2.length ≤ number.2.length :=
          r.length_takeSignIf_le trails number.2
        .ok ⟨cycle, trailing.2, by omega⟩

/-- A cycle that was read up to its closing bracket: its parts, the sign token before the bracket
if there was one, and where the bracket ends. -/
structure Closed where
  cycle : PartCycle
  sign : Option Token
  stop : Nat

/-- Reads the parts of a cycle and the closing bracket. -/
def readParts (r : Reading) (cycle : PartCycle) (ts : List Token) :
    Except ParseError (Parsed ts.length Closed) :=
  match ts with
  | [] => .error (.ofToken .permutationClosingMissing (r.peek []))
  | t :: rest =>
    if r.grammar.isA .permutationEnd t then .ok ⟨⟨cycle, none, t.stop⟩, rest, by simp⟩
    else
      match r.readPart cycle (t :: rest) with
      | .error e => .error e
      | .ok ⟨cycle, rest', h⟩ =>
        let next := r.peek rest'
        let behind := rest'.tail
        have hbehind : behind.length ≤ rest'.length := length_tail_le_self rest'
        if r.grammar.isA .permutationDelimiter next then
          match r.readParts cycle behind with
          | .error e => .error e
          | .ok p => .ok (p.widen (by omega))
        else if r.grammar.fixity .permutation = .postcircumfixed && (r.signOf? next).isSome then
          let closing := r.peek behind
          have := length_tail_le_self behind
          if r.grammar.isA .permutationEnd closing then
            .ok ⟨⟨cycle, some next, closing.stop⟩, behind.tail, by omega⟩
          else .error (.ofToken .permutationClosingExpected closing)
        else
          match r.readParts cycle rest' with
          | .error e => .error e
          | .ok p => .ok (p.widen (by omega))
termination_by ts.length
decreasing_by all_goals (simp only [List.length_cons, List.length_tail] at *; omega)

/-- The cycle with the sign of a token. A cycle of edges takes no other sign than the one for a
flip, and one of corners none for a half turn; an empty cycle takes any and ignores it. -/
def withSign (r : Reading) (span : Span) (cycle : PartCycle) (signToken : Option Token) :
    Except ParseError Script :=
  match signToken, cycle.kind with
  | some t, some kind =>
    let sign := r.signOf? t
    let illegal : Bool := match kind with
      | .edge => sign = some .permutationPlusPlus || sign = some .permutationMinus
      | .corner => sign = some .permutationPlusPlus
      | .side => false
    if illegal then .error (.ofToken .permutationSign t)
    else
      match PartCycle.signTwist sign kind with
      | .error fault => .error ⟨.part fault, t.span, none⟩
      | .ok twist =>
        .ok (.permutation ⟨span.start, max span.stop t.stop⟩ { cycle with sign := twist })
  | _, _ => .ok (.permutation span cycle)

/-- Reads a cycle behind its opening bracket; `start` is where it began, and `leading` the sign
token in front of the bracket. -/
def readPermutation (r : Reading) (start : Nat) (leading : Option Token) (ts : List Token) :
    Except ParseError (Parsed ts.length Script) :=
  let f := r.grammar.fixity .permutation
  let opened := r.takeSignIf (f = .precircumfixed) ts
  match r.readParts {} opened.2 with
  | .error e => .error e
  | .ok ⟨⟨cycle, sign, stop⟩, rest, h⟩ =>
    let trailing := r.takeSignIf (f = .suffixed) rest
    let signToken := trailing.1 <|> sign <|> opened.1 <|> leading
    match r.withSign ⟨start, stop⟩ cycle signToken with
    | .error e => .error e
    | .ok script =>
      have hopened : opened.2.length ≤ ts.length := r.length_takeSignIf_le _ ts
      have htrailing : trailing.2.length ≤ rest.length := r.length_takeSignIf_le _ rest
      .ok ⟨script, trailing.2, by omega⟩

end CubeLang.Reading
