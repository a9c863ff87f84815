import CubeLang.Cube.Basic
import CubeLang.Symbol

/-!
# Cycles of parts

A cycle of parts is a list of parts of one kind, each named by its faces in some order. Carried
out, it moves each part to the place of the next one, the last to the place of the first, face by
face as they were named; its sign is the twist that is added once on the way round. Parts are added
one by one. A refused part may still have set the kind, and before the first part the sign.
-/

set_option autoImplicit false

namespace CubeLang

/-- A part of a cycle: its location, and which of its faces was named first. For corners three is
added if the faces were named anticlockwise. -/
structure PartCycle.Item where
  location : Nat
  orientation : Nat
deriving DecidableEq

/-- The parts that change places in a cycle, and the twist added on the way round. -/
structure PartCycle where
  kind : Option PartKind := none
  sign : Nat := 0
  items : List PartCycle.Item := []
deriving DecidableEq

namespace PartCycle

/-- Why a part is refused. -/
inductive Fault where
  | otherKind
  | signSymbol (s : Symbol)
  | sign
  | edgeSign
  | cornerSign
  | notAFace
  | noFaces
  | sideNumber (given : Int)
  | edgeNumber (given : Int)
  | noSuchEdge (faces : List Face)
  | noSuchCorner (faces : List Face)
  | mixedCorners
  | repeatedPart
deriving DecidableEq

/-- The letters of some faces. -/
def letters (faces : List Face) : String := String.join (faces.map Face.letter)

/-- The text of a fault; for symbols that are no faces and for missing faces there is none. -/
def Fault.message? : Fault → Option String
  | .otherKind => some "Permutation of different part types is not supported"
  | .signSymbol s => some s!"Illegal sign symbol: {s.label}"
  | .sign => some "Illegal sign"
  | .edgeSign => some "Illegal sign for edge part"
  | .cornerSign => some "Illegal sign for corner part"
  | .notAFace => none
  | .noFaces => none
  | .sideNumber given => some s!"Illegal side part number {given}"
  | .edgeNumber given => some s!"Illegal edge part number {given}"
  | .noSuchEdge faces => some s!"Impossible edge part \"{letters faces}\""
  | .noSuchCorner faces => some s!"Impossible corner part \"{letters faces}\""
  | .mixedCorners =>
    some "Corner permutation cannot be clockwise and anticlockwise at the same time"
  | .repeatedPart => some "Illegal multiple occurrence of same part"

/-- The twist that a sign stands for with parts of a kind. -/
def signTwist (sign : Option Symbol) (kind : PartKind) : Except Fault Nat :=
  match sign with
  | none => .ok 0
  | some .permutationMinus => .ok 1
  | some .permutationPlusPlus => .ok 2
  | some .permutationPlus =>
    .ok (match kind with
      | .corner => 2
      | .edge => 1
      | .side => 3)
  | some s => .error (.signSymbol s)

/-- The location of the part between exactly some faces. -/
def locationOf? (table : List (List Face)) (faces : List Face) : Option Nat :=
  table.findIdx? fun there =>
    there.all (fun face => faces.contains face) && faces.all fun face => there.contains face

/-- The side part of a number on a face; its orientation is its sign, except in front. -/
def sideItem (c : PartCycle) (faces : List Face) (number : Int) (twist : Nat)
    (layerCount : Int) : Except Fault Item :=
  if number < 0 || max ((layerCount - 2) * (layerCount - 2)) 1 ≤ number then
    .error (.sideNumber number)
  else match faces with
    | [] => .error .noFaces
    | face :: _ =>
      .ok ⟨face.index + 6 * number.toNat, if c.items.isEmpty then 0 else twist⟩

/-- The edge part of a number between two faces; its orientation tells which came first. -/
def edgeItem (faces : List Face) (number : Int) (layerCount : Int) : Except Fault Item :=
  if number < 0 || max (layerCount - 2) 1 ≤ number then .error (.edgeNumber number)
  else match locationOf? edgeFaces faces with
    | none => .error (.noSuchEdge faces)
    | some i =>
      .ok ⟨i + 12 * number.toNat, if faces.head? = (edgeFaces.getD i []).head? then 0 else 1⟩

/-- The corner part between three faces; its orientation tells which came first and which way
round they were named, which must be the same for all corners of a cycle. -/
def cornerItem (c : PartCycle) (faces : List Face) : Except Fault Item :=
  match locationOf? cornerFaces faces with
  | none => .error (.noSuchCorner faces)
  | some i =>
    let there := cornerFaces.getD i []
    let first := there.idxOf (faces.getD 0 .r)
    let anticlockwise := there[(first + 1) % 3]? ≠ faces[1]?
    let orientation := (3 - first) % 3 + if anticlockwise then 3 else 0
    if c.items.any fun item => item.orientation / 3 ≠ orientation / 3 then .error .mixedCorners
    else .ok ⟨i, orientation⟩

/-- The part of a kind with some faces and a number. -/
def item (c : PartCycle) (kind : PartKind) (sign : Option Symbol) (twist : Nat)
    (faces : List Symbol) (number layerCount : Int) : Except Fault Item :=
  match faces.mapM Face.ofSymbol? with
  | none => .error .notAFace
  | some faces =>
    match kind with
    | .side => c.sideItem faces number twist layerCount
    | .edge =>
      if sign = none || sign = some .permutationPlus then edgeItem faces number layerCount
      else .error .edgeSign
    | .corner =>
      if sign = some .permutationPlusPlus then .error .cornerSign else c.cornerItem faces

/-- Adds a part. The sign of the first part is the sign of the cycle; only side parts have signs
of their own. -/
def addItem (kind : PartKind) (sign : Option Symbol) (faces : List Symbol)
    (number layerCount : Int) : EStateM Fault PartCycle Unit := do
  modify fun c => { c with kind := c.kind <|> some kind }
  let c ← get
  if c.kind ≠ some kind then throw .otherKind
  let twist ← match signTwist sign kind with
    | .ok twist => pure twist
    | .error fault => throw fault
  if c.items.isEmpty then set { c with sign := twist }
  else if kind ≠ .side && twist ≠ 0 then throw .sign
  match c.item kind sign twist faces number layerCount with
  | .error fault => throw fault
  | .ok item =>
    if c.items.any fun there => there.location = item.location then throw .repeatedPart
    modify fun c => { c with items := c.items ++ [item] }

/-! ## Carrying out -/

/-- One part's way from a location to another, with the twist that it gets. -/
structure Step where
  source : Nat
  target : Nat
  twist : Int

/-- The same way back. -/
def Step.inverse (s : Step) : Step := ⟨s.target, s.source, -s.twist⟩

/-- The steps from a part on: each to the place of the next, the last to the first part's. -/
def stepsFrom (first : Item) (sign : Nat) : Item → List Item → List Step
  | last, [] =>
    [⟨last.location, first.location, (first.orientation : Int) - last.orientation + sign⟩]
  | here, next :: rest =>
    ⟨here.location, next.location, (next.orientation : Int) - here.orientation⟩
      :: stepsFrom first sign next rest

/-- The steps of a cycle. -/
def steps (c : PartCycle) : List Step :=
  match c.items with
  | [] => []
  | first :: rest => stepsFrom first c.sign first rest

/-- The arrangement that some steps make. -/
def arrangement (kind : PartKind) (count : Nat) (steps : List Step) : Arrangement :=
  Array.ofFn fun i : Fin count =>
    match steps.find? fun s => s.target = i.val with
    | some s => ⟨s.source, (s.twist % kind.modulus).toNat⟩
    | none => ⟨i, 0⟩

/-- The cube after a cycle, or after its inverse; none if it lacks a location of the cycle. -/
def act? (c : PartCycle) (inverse : Bool) (cube : Cube) : Option Cube :=
  match c.kind with
  | none => some cube
  | some kind =>
    if c.items.isEmpty then some cube
    else if c.items.all fun item => item.location < cube.count kind then
      let steps := if inverse then c.steps.map Step.inverse else c.steps
      some (cube.rearrange kind (arrangement kind (cube.count kind) steps))
    else none

end PartCycle

end CubeLang
