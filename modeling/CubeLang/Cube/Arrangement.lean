import CubeLang.Cube.Part

/-!
# Arrangements

An arrangement of the parts of one kind says for each location which part is there and how it is
twisted. An arrangement is also a way to rearrange: it takes each location's part from elsewhere
and twists it further. Doing one arrangement after another is an arrangement again, whatever the
parts are; the states of a cube and the things done to it are of one kind.
-/

set_option autoImplicit false

namespace CubeLang

/-- What is at a location: the part that came from the location `part`, with a twist. -/
structure Slot where
  part : Nat
  twist : Nat
deriving DecidableEq, Inhabited

/-- The slots of the locations of one kind, in order. -/
abbrev Arrangement := Array Slot

namespace Arrangement

/-- The arrangement of `count` parts in which each part is in its place. -/
def solved (count : Nat) : Arrangement :=
  Array.ofFn fun i : Fin count => ⟨i, 0⟩

/-- What is at a location; a location that is not there holds itself, as if solved. -/
def slot (a : Arrangement) (i : Nat) : Slot :=
  a.getD i ⟨i, 0⟩

/-- The arrangement `a` rearranged by `b`, for parts that can stand in `modulus` ways. -/
def andThen (modulus : Nat) (a b : Arrangement) : Arrangement :=
  b.map fun s =>
    let moved := a.slot s.part
    ⟨moved.part, (moved.twist + s.twist) % modulus⟩

/-- The arrangement in which location `i` holds the `i`-th of some parts with the `i`-th of some
twists; a twist counts modulo the number of ways in which a part can stand. -/
def ofLists (modulus : Nat) (parts : List Nat) (twists : List Int) : Arrangement :=
  ((parts.zip twists).map fun (p, t) => Slot.mk p (t % modulus).toNat).toArray

/-- The parts in order of location. -/
def parts (a : Arrangement) : List Nat := a.toList.map Slot.part

/-- The twists in order of location. -/
def twists (a : Arrangement) : List Nat := a.toList.map Slot.twist

/-- Every part is somewhere, and every twist is one of the ways in which a part can stand. -/
def Valid (kind : PartKind) (count : Nat) (a : Arrangement) : Prop :=
  a.size = count ∧ (∀ i < count, i ∈ a.parts) ∧ ∀ t ∈ a.twists, t < kind.modulus

instance (kind : PartKind) (count : Nat) (a : Arrangement) : Decidable (a.Valid kind count) :=
  inferInstanceAs (Decidable (_ ∧ _ ∧ _))

end Arrangement

end CubeLang
