import CubeLang.Notation.Basic

/-!
# The built-in notation

For every layer count from two on there is a built-in notation. Its moves come in families; each
group of layers has a label and turns about the six faces, once by a quarter and once by a half.
A group is given by the layers counted from the faces `L`, `D` and `B`; the faces `R`, `U` and `F`
turn the same layers counted from their side, the other way round.
-/

set_option autoImplicit false

namespace CubeLang.Notation

open LayerMask

/-- A group of layers and the label in front of the face. -/
structure LayerGroup where
  label : String
  mask : Nat

/-- The `width` layers in the middle of `n`, the lower ones where there is no exact middle. -/
def middleBlock (n width : Nat) : Nat :=
  block (n / 2 - width / 2 - (if n % 2 = 0 then width % 2 else 0)) width

/-- The numbers from `first` to `last`. -/
def numbers (first last : Nat) : List Nat :=
  List.range' first (last + 1 - first)

/-- The pairs `first ≤ last` of numbers of inner layers that end a range. -/
def innerRanges (n : Nat) : List (Nat × Nat) :=
  (numbers 2 (n - 2)).flatMap fun first => (numbers first (n - 1)).map fun last => (first, last)

/-- A group under its numbered label and, when the number is `short`, under the bare letter. -/
def numbered (letter : String) (short : Nat) (mask : Nat → Nat) (k : Nat) : List LayerGroup :=
  (if k = short then [⟨letter, mask k⟩] else []) ++ [⟨s!"{letter}{k}", mask k⟩]

/-- The groups of layers of a cube with `n` layers: faces, the whole cube, mid layers, the wide
middle, tiers, single layers and ranges of them, verges, slices and slice ranges. -/
def layerGroups (n : Nat) : List LayerGroup :=
  [⟨"", single 0⟩, ⟨"C", all n⟩]
    ++ (numbers 1 (n - 2)).flatMap (numbered "M" 1 (middleBlock n))
    ++ (if 2 < n then [⟨"W", block 1 (n - 2)⟩] else [])
    ++ (numbers 1 n).flatMap (numbered "T" 2 (block 0))
    ++ (numbers 1 (n - 1)).flatMap (numbered "N" 2 fun k => single (k - 1))
    ++ (innerRanges n).map (fun r => ⟨s!"N{r.1}-{r.2}", block (r.1 - 1) (r.2 + 1 - r.1)⟩)
    ++ (numbers 2 (n - 1)).flatMap (numbered "V" 2 (block 1))
    ++ (numbers 1 ((n - 1) / 2)).flatMap (numbered "S" 1 fun k => complement n (block k (n - 2 * k)))
    ++ (innerRanges n).map
      (fun r => ⟨s!"S{r.1}-{r.2}", complement n (block (r.1 - 1) (r.2 + 1 - r.1))⟩)

/-- The six moves of a group of layers by `angle` quarter turns, with their tokens. -/
def groupMoves (n : Nat) (angle : Int) (mark : String) (g : LayerGroup) :
    List (String × Move) :=
  let near : Int := g.mask
  let far : Int := reverse g.mask n
  [("R", 0, far, angle), ("U", 1, far, angle), ("F", 2, far, angle),
    ("L", 0, near, -angle), ("D", 1, near, -angle), ("B", 2, near, -angle)].map
    fun (face, axis, mask, angle) => (g.label ++ face ++ mark, ⟨n, axis, mask, angle⟩)

/-- The moves of the built-in notation: all quarter turns, then all half turns. -/
def defaultMoves (n : Nat) : List (String × Move) :=
  (layerGroups n).flatMap (groupMoves n 1 "") ++ (layerGroups n).flatMap (groupMoves n 2 "2")

/-- The tokens of the built-in notation other than its moves. -/
def defaultTokens : List (Symbol × String) := [
  (.nop, "·"), (.nop, "."),
  (.faceR, "r"), (.faceU, "u"), (.faceF, "f"), (.faceL, "l"), (.faceD, "d"), (.faceB, "b"),
  (.permutationPlus, "+"), (.permutationMinus, "-"), (.permutationPlusPlus, "++"),
  (.permutationBegin, "("), (.permutationEnd, ")"), (.permutationDelimiter, ","),
  (.inversionOperator, "'"), (.inversionOperator, "-"),
  (.reflectionOperator, "*"),
  (.groupingBegin, "("), (.groupingEnd, ")"),
  (.commutationBegin, "["), (.commutationEnd, "]"), (.commutationDelimiter, ","),
  (.conjugationBegin, "<"), (.conjugationEnd, ">"),
  (.rotationBegin, "<"), (.rotationEnd, ">'"),
  (.blockCommentBegin, "/*"), (.blockCommentEnd, "*/"), (.lineCommentBegin, "//")]

/-- The fixities of the built-in notation. -/
def defaultFixities : List (Symbol × Fixity) := [
  (.commutation, .precircumfixed), (.conjugation, .prefixed), (.rotation, .prefixed),
  (.grouping, .circumfixed), (.permutation, .precircumfixed), (.repetition, .suffixed),
  (.reflection, .suffixed), (.inversion, .suffixed), (.move, .primary), (.nop, .primary),
  (.macroName, .primary)]

/-- The built-in notation for `n` layers. All its moves have tokens of their own: the one letter of a
face in a token parts the label of a group, which is of that group alone, from the mark of a half
turn, and tokens of other symbols hold no capital letter. -/
def ofLayerCount (n : Nat) (h : 2 ≤ n) : Notation where
  layerCount := n
  two_le_layerCount := h
  builtIn := true
  bindings := defaultTokens ++ (defaultMoves n).map fun e => (.move, e.1)
  tokens := (defaultTokens.map Prod.snd).eraseDups ++ (defaultMoves n).map Prod.fst
  moves := ⟨defaultMoves n⟩
  fixities := ⟨defaultFixities⟩

/-- The built-in notation for a layer count, which must be at least two. -/
def default (layerCount : Int) : Except Fault Notation :=
  if h : 2 ≤ layerCount then .ok (ofLayerCount layerCount.toNat (Int.toNat_le_toNat h))
  else .error .tooFewLayers

end CubeLang.Notation
