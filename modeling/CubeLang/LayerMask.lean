/-!
# Sets of layers

The layers that stand across an axis are numbered from zero at its negative end. A set of layers
is a number whose bit `i` says whether layer `i` is in it. Seen from the other end of the axis the
same layers make the reversed set.
-/

set_option autoImplicit false

namespace CubeLang.LayerMask

/-- The layer `i` alone. -/
def single (i : Nat) : Nat := 1 <<< i

/-- The `width` layers from `first` on. -/
def block (first width : Nat) : Nat := (1 <<< width - 1) <<< first

/-- All of `n` layers. -/
def all (n : Nat) : Nat := block 0 n

/-- The layers, out of `n`, that are not in a set. -/
def complement (n mask : Nat) : Nat := all n ^^^ mask

/-- Whether a number is a set of layers out of `n`. -/
def isOf (mask : Int) (n : Nat) : Bool :=
  0 ≤ mask && mask.toNat < 1 <<< n

/-- The `width` lowest bits of `mask` in reverse order, behind the bits of `acc`. -/
def reverseBits : (width mask acc : Nat) → Nat
  | 0, _, acc => acc
  | width + 1, mask, acc => reverseBits width (mask / 2) (2 * acc + mask % 2)

/-- The binary digits of the set, at least `n` of them, in reverse order. -/
def reverse (mask n : Nat) : Nat :=
  reverseBits (max n (mask.log2 + 1)) mask 0

end CubeLang.LayerMask
