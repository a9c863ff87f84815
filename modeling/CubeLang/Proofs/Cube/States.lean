import CubeLang.Proofs.Cube.Order
import Mathlib.GroupTheory.OrderOfElement

/-!
# The monoid of states

The valid states of a cube with so many layers form a monoid: a product is the first state rearranged by
the second one, and the solved state is the unit. The powers of a state are those of the monoid, and the
order that is computed from the cycles of its parts is the order of an element. So what is known of the
orders of elements holds of the order that is computed: it is that of the inverse and of the conjugates.
-/

set_option autoImplicit false

namespace CubeLang.Cube

/-- A valid state of a cube with `n` layers. -/
@[ext]
structure State (n : Nat) where
  cube : Cube
  valid : cube.Valid n

namespace State

variable {n : Nat} {g h : State n}

instance : Monoid (State n) where
  mul g h := ⟨g.cube.andThen h.cube, g.valid.andThen h.valid⟩
  one := ⟨solved n, valid_solved⟩
  mul_assoc _ h k := State.ext (h.valid.andThen_assoc k.valid)
  one_mul g := State.ext g.valid.solved_andThen
  mul_one g := State.ext g.valid.andThen_solved

@[simp] theorem cube_mul : (g * h).cube = g.cube.andThen h.cube := rfl

@[simp] theorem cube_one : (1 : State n).cube = solved n := rfl

/-- The powers are those that come about by rearranging the solved cube again and again. -/
theorem cube_pow (g : State n) (k : Nat) : (g ^ k).cube = g.cube.power k := by
  induction k with
  | zero => rw [pow_zero, cube_one, power, Function.iterate_zero, id, g.valid.1]
  | succ k ih => rw [pow_succ, cube_mul, ih, power_succ]

/-- The cube is solved in no state but the unit. -/
theorem isSolved_iff (g : State n) : g.cube.isSolved = true ↔ g = 1 := by
  rw [isSolved, decide_eq_true_eq, g.valid.1, State.ext_iff, cube_one]

/-- The order computed from the cycles is that of the element. -/
theorem order_eq (g : State n) : g.cube.order = orderOf g := by
  rw [← Nat.dvd_right_iff_eq]
  intro k
  rw [g.valid.order_dvd_iff, ← cube_pow, isSolved_iff, orderOf_dvd_iff_pow_eq_one]

/-- What undoes a state has the order of it. -/
theorem order_inv (g : (State n)ˣ) : g⁻¹.val.cube.order = g.val.cube.order := by
  rw [order_eq, order_eq, orderOf_units, orderOf_units, orderOf_inv]

/-- A conjugate of a state has the order of it. -/
theorem order_conjugate (x g : (State n)ˣ) :
    (x * (g * x⁻¹)).val.cube.order = g.val.cube.order := by
  have hconjugate : SemiconjBy x g (x * (g * x⁻¹)) := by
    rw [SemiconjBy, mul_assoc, mul_assoc, inv_mul_cancel, mul_one]
  rw [order_eq, order_eq, orderOf_units, orderOf_units, hconjugate.orderOf_eq x]

end State

end CubeLang.Cube
