import CubeLang.Move
import Mathlib.Algebra.Ring.Nat
import Mathlib.Order.Lattice

/-!
# Layers counted from the other end

Which layers a block, a complement or a reversed set holds is said bit by bit. Reversing a set turns
its binary digits round, written with zeros for the layers that are not in it, so that each layer
changes places with the one as far from the other end; doing it twice changes nothing. The program
takes the digits off one by one; the text of all of them, read backward, gives the same number.
-/

set_option autoImplicit false

namespace CubeLang

namespace LayerMask

variable {n mask : Nat}

/-! ## Sets with few or many layers -/

theorem block_lt {first width : Nat} (h : first + width ≤ n) : block first width < 2 ^ n := by
  have hwidth : 1 <<< width - 1 < 2 ^ width := by
    rw [Nat.one_shiftLeft]
    exact Nat.sub_lt (Nat.two_pow_pos width) Nat.one_pos
  calc block first width = (1 <<< width - 1) * 2 ^ first := Nat.shiftLeft_eq ..
    _ < 2 ^ width * 2 ^ first := Nat.mul_lt_mul_of_pos_right hwidth (Nat.two_pow_pos first)
    _ = 2 ^ (first + width) := by rw [← Nat.pow_add, Nat.add_comm]
    _ ≤ 2 ^ n := Nat.pow_le_pow_right Nat.two_pos h

theorem single_lt {i : Nat} (h : i < n) : single i < 2 ^ n := by
  rw [single, Nat.one_shiftLeft]
  exact Nat.pow_lt_pow_right Nat.one_lt_two h

theorem complement_lt (h : mask < 2 ^ n) : complement n mask < 2 ^ n :=
  Nat.xor_lt_two_pow (block_lt (Nat.le_of_eq (Nat.zero_add n))) h

theorem testBit_single (i j : Nat) : (single i).testBit j = decide (i = j) := by
  rw [single, Nat.one_shiftLeft, Nat.testBit_two_pow]

theorem testBit_block (first width i : Nat) :
    (block first width).testBit i = decide (first ≤ i ∧ i < first + width) := by
  rw [block, Nat.one_shiftLeft, Nat.testBit_shiftLeft, Nat.testBit_two_pow_sub_one,
    ← Bool.decide_and, decide_eq_decide]
  omega

theorem testBit_complement {i : Nat} (hi : i < n) :
    (complement n mask).testBit i = !mask.testBit i := by
  have hall : (all n).testBit i = true := by
    rw [all, testBit_block, decide_eq_true_eq]
    omega
  rw [complement, Nat.testBit_xor, hall, Bool.true_xor]

/-! ## Reversed sets -/

/-- Reversed bits stand in front of none but those behind which they are written. -/
theorem reverseBits_lt (width mask acc : Nat) :
    reverseBits width mask acc < 2 ^ width * (acc + 1) := by
  induction width generalizing mask acc with
  | zero => simp [reverseBits]
  | succ width ih =>
    have hbit : mask % 2 < 2 := Nat.mod_lt _ Nat.two_pos
    calc reverseBits (width + 1) mask acc = reverseBits width (mask / 2) (2 * acc + mask % 2) := rfl
      _ < 2 ^ width * (2 * acc + mask % 2 + 1) := ih _ _
      _ ≤ 2 ^ width * (2 * (acc + 1)) := Nat.mul_le_mul_left _ (by omega)
      _ = 2 ^ (width + 1) * (acc + 1) := by rw [Nat.pow_succ, Nat.mul_assoc]

/-- A set of layers of a cube has no more binary digits than the cube has layers. -/
theorem digits_le (hn : 0 < n) (h : mask < 2 ^ n) : mask.log2 + 1 ≤ n := by
  by_cases hzero : mask = 0
  · subst hzero
    exact hn
  · exact (Nat.log2_lt hzero).mpr h

/-- The layers of a cube, counted from the other end, are layers of the cube. -/
theorem reverse_lt (hn : 0 < n) (h : mask < 2 ^ n) : reverse mask n < 2 ^ n := by
  have hbits := reverseBits_lt n mask 0
  rw [reverse, max_eq_left (digits_le hn h)]
  rwa [Nat.zero_add, Nat.mul_one] at hbits

/-- The lowest bits of the mask stand in front, the lowest one first, and what was written before
stands behind them. -/
theorem testBit_reverseBits (width mask acc i : Nat) :
    (reverseBits width mask acc).testBit i =
      if i < width then mask.testBit (width - 1 - i) else acc.testBit (i - width) := by
  induction width generalizing mask acc with
  | zero => simp [reverseBits]
  | succ width ih =>
    rw [reverseBits, ih]
    by_cases hlow : i < width
    · have hindex : width + 1 - 1 - i = (width - 1 - i) + 1 := by omega
      rw [if_pos hlow, if_pos (by omega), hindex, Nat.testBit_add_one]
    · by_cases hsame : i = width
      · subst hsame
        simp [Nat.testBit_zero]
      · have hindex : i - width = (i - (width + 1)) + 1 := by omega
        rw [if_neg hlow, if_neg (by omega), hindex, Nat.testBit_add_one]
        congr 1
        omega

/-- A layer is in the reversed set if the layer as far from the other end is in the set. -/
theorem testBit_reverse (h : mask < 2 ^ n) {i : Nat} (hi : i < n) :
    (reverse mask n).testBit i = mask.testBit (n - 1 - i) := by
  rw [reverse, max_eq_left (digits_le (by omega) h), testBit_reverseBits, if_pos hi]

/-- Sets of layers of a cube are the same if they hold the same layers of it. -/
theorem eq_of_testBit_eq {mask' : Nat} (h : mask < 2 ^ n) (h' : mask' < 2 ^ n)
    (hbits : ∀ i < n, mask.testBit i = mask'.testBit i) : mask = mask' := by
  apply Nat.eq_of_testBit_eq
  intro i
  by_cases hi : i < n
  · exact hbits i hi
  · have hpow : 2 ^ n ≤ 2 ^ i := Nat.pow_le_pow_right Nat.two_pos (Nat.le_of_not_lt hi)
    rw [Nat.testBit_lt_two_pow (Nat.lt_of_lt_of_le h hpow),
      Nat.testBit_lt_two_pow (Nat.lt_of_lt_of_le h' hpow)]

/-- Counted from the other end and back again, the layers are the same. -/
theorem reverse_reverse (hn : 0 < n) (h : mask < 2 ^ n) : reverse (reverse mask n) n = mask := by
  have hreversed := reverse_lt hn h
  refine eq_of_testBit_eq (reverse_lt hn hreversed) h ?_
  intro i hi
  rw [testBit_reverse hreversed hi, testBit_reverse h (by omega)]
  congr 1
  omega

/-! ## Reversed digits -/

/-- The binary digits of a set, that of the last layer in front, with zeros in front of them if there
are fewer than `n`. -/
def binaryText (mask n : Nat) : List Char := (Nat.toDigits 2 mask).leftpad n '0'

/-- The number that binary digits write. -/
def ofBinaryText (text : List Char) : Nat := Nat.ofDigitChars 2 text 0

theorem digitChar_sub {bit : Nat} (h : bit < 2) : (Nat.digitChar bit).toNat - '0'.toNat = bit := by
  have all : ∀ bit < 2, (Nat.digitChar bit).toNat - '0'.toNat = bit := by decide
  exact all bit h

/-- With room for one layer more, the digit of the first layer stands behind those of the others. -/
theorem binaryText_succ {width : Nat} (hwidth : 0 < width) (mask : Nat) :
    binaryText mask (width + 1) = binaryText (mask / 2) width ++ [Nat.digitChar (mask % 2)] := by
  unfold binaryText
  by_cases hmask : mask < 2
  · have hhalf : mask / 2 = 0 := Nat.div_eq_of_lt hmask
    obtain ⟨width, rfl⟩ := Nat.exists_eq_succ_of_ne_zero (Nat.ne_of_gt hwidth)
    rw [hhalf, Nat.mod_eq_of_lt hmask, Nat.toDigits_of_lt_base hmask, Nat.toDigits_zero]
    simp [List.leftpad, List.replicate_succ']
  · rw [Nat.toDigits_of_base_le Nat.one_lt_two (Nat.le_of_not_lt hmask)]
    simp [List.leftpad, Nat.add_sub_add_right]

/-- Taking the digits off one by one is reading the whole text of them backward. -/
theorem reverseBits_eq_ofDigitChars {width : Nat} (hwidth : 0 < width) (h : mask < 2 ^ width)
    (acc : Nat) :
    reverseBits width mask acc = Nat.ofDigitChars 2 (binaryText mask width).reverse acc := by
  induction width, hwidth using Nat.le_induction generalizing mask acc with
  | base =>
    have hmask : mask < 2 := h
    have htext : binaryText mask 1 = [Nat.digitChar mask] := by
      rw [binaryText, Nat.toDigits_of_lt_base hmask]
      rfl
    rw [Nat.succ_eq_add_one, Nat.zero_add, htext, List.reverse_singleton, Nat.ofDigitChars_cons,
      digitChar_sub hmask, reverseBits, reverseBits, Nat.mod_eq_of_lt hmask]
    rfl
  | succ width hwidth ih =>
    have hhalf : mask / 2 < 2 ^ width := by
      rw [Nat.pow_succ] at h
      omega
    have hbit : mask % 2 < 2 := Nat.mod_lt _ Nat.two_pos
    rw [reverseBits, ih hhalf, binaryText_succ hwidth, List.reverse_append, List.reverse_singleton,
      List.singleton_append, Nat.ofDigitChars_cons, digitChar_sub hbit]

/-- A set has as many binary digits as its last layer needs, and at least one. -/
theorem length_toDigits (mask : Nat) : (Nat.toDigits 2 mask).length = mask.log2 + 1 := by
  have hle : ∀ k, 0 < k → ((Nat.toDigits 2 mask).length ≤ k ↔ mask.log2 + 1 ≤ k) := by
    intro k hk
    rw [Nat.length_toDigits_le_iff Nat.one_lt_two hk]
    by_cases hzero : mask = 0
    · subst hzero
      exact iff_of_true (Nat.two_pow_pos k) hk
    · exact (Nat.log2_lt hzero).symm
  apply Nat.le_antisymm
  · exact (hle _ (Nat.succ_pos _)).mpr (Nat.le_refl _)
  · exact (hle _ Nat.length_toDigits_pos).mp (Nat.le_refl _)

/-- The reversed set is what its binary text says when it is read backward. -/
theorem reverse_eq_ofBinaryText (mask n : Nat) :
    reverse mask n = ofBinaryText (binaryText mask n).reverse := by
  have hlength := length_toDigits mask
  have hpadded : binaryText mask n = binaryText mask (max n (mask.log2 + 1)) := by
    unfold binaryText List.leftpad
    rw [hlength]
    congr 2
    omega
  have hlt : mask < 2 ^ max n (mask.log2 + 1) :=
    Nat.lt_of_lt_of_le Nat.lt_log2_self (Nat.pow_le_pow_right Nat.two_pos (le_max_right _ _))
  rw [reverse, reverseBits_eq_ofDigitChars (by omega) hlt, hpadded]
  rfl

end LayerMask

namespace Move

theorem reversedMask?_natCast (mask n : Nat) :
    reversedMask? mask n = some (LayerMask.reverse mask n : Int) := by
  rw [reversedMask?, if_neg (by simp)]
  rfl

/-- **Counted from the other end, a set of layers is mirrored.** The reversed set of layers of a cube
is a set of layers of the cube: it holds each layer if the given set holds the one as far from the
other end, it is what the binary text of the given set says backward, and reversing it gives the
given set back. -/
theorem layers_mirrored {n mask : Nat} (hn : 1 ≤ n) (hmask : mask < 2 ^ n) :
    ∃ mirrored : Nat, reversedMask? mask n = some (mirrored : Int) ∧ mirrored < 2 ^ n ∧
      (∀ i < n, mirrored.testBit i = mask.testBit (n - 1 - i)) ∧
      mirrored = LayerMask.ofBinaryText (LayerMask.binaryText mask n).reverse ∧
      reversedMask? mirrored n = some (mask : Int) := by
  refine ⟨LayerMask.reverse mask n, reversedMask?_natCast mask n, LayerMask.reverse_lt hn hmask,
    fun i hi => LayerMask.testBit_reverse hmask hi, LayerMask.reverse_eq_ofBinaryText mask n, ?_⟩
  rw [reversedMask?_natCast, LayerMask.reverse_reverse hn hmask]

/-- Out of seven layers, the second to the fourth and the sixth. -/
theorem layers_mirrored_seven : ∃ mirrored : Nat, reversedMask? 46 7 = some (mirrored : Int) ∧
    1 ≤ 7 ∧ 46 < 2 ^ 7 ∧ mirrored = 58 ∧ reversedMask? mirrored 7 = some 46 := by
  have hlayers : 1 ≤ 7 := by decide
  have hmask : 46 < 2 ^ 7 := by decide
  obtain ⟨mirrored, hreversed, -, -, htext, hback⟩ := layers_mirrored hlayers hmask
  exact ⟨mirrored, hreversed, hlayers, hmask, htext.trans (by decide), hback⟩

end Move

end CubeLang
