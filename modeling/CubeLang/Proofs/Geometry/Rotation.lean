import CubeLang.Geometry.Face

/-!
# The rotations of the cube

A rotation of the cube carries faces to faces: its first two rows are the normals of two faces that
are not parallel, and its third row is their cross product. There are twenty-four rotations. They
form a group, the quarter turns about the axes belong to it, and since every row has one component
that is not zero, a rotation only moves the components of a vector around and changes signs.
-/

set_option autoImplicit false

namespace CubeLang

namespace Vec

theorem ext {v w : Vec} (hx : v.x = w.x) (hy : v.y = w.y) (hz : v.z = w.z) : v = w := by
  cases v
  cases w
  simp_all

/-- The vector whose components were all changed in the same way. -/
def map (f : Int → Int) (v : Vec) : Vec := ⟨f v.x, f v.y, f v.z⟩

/-- The inner product with a normal of a face is one component up to its sign, so it can be taken
before or after a change of components that respects signs. -/
theorem dot_map {f : Int → Int} (hf : ∀ k, f (-k) = -f k) (face : Face) (v : Vec) :
    face.normal.dot (v.map f) = f (face.normal.dot v) := by
  cases face <;> simp [Face.normal, dot, map, hf]

end Vec

namespace Matrix

/-- The rotations of the cube. -/
def rotations : List Matrix :=
  Face.all.flatMap fun one => (Face.all.filter fun two => one.axis ≠ two.axis).map fun two =>
    ⟨one.normal, two.normal, one.normal.cross two.normal⟩

/-- A matrix is a rotation of the cube. -/
def IsRotation (m : Matrix) : Prop := m ∈ rotations

theorem isRotation_one : one.IsRotation := by
  unfold IsRotation
  decide

theorem isRotation_quarterTurn (a : Axis) : (quarterTurn a).IsRotation := by
  unfold IsRotation
  cases a <;> decide

theorem IsRotation.mul {m m' : Matrix} (h : m.IsRotation) (h' : m'.IsRotation) :
    (m.mul m').IsRotation := by
  have closed : ∀ m ∈ rotations, ∀ m' ∈ rotations, m.mul m' ∈ rotations := by decide +kernel
  exact closed m h m' h'

/-- The rotation by any number of quarter turns is a rotation. -/
theorem isRotation_rotation (a : Axis) (angle : Int) : (rotation a angle).IsRotation := by
  unfold rotation
  induction (angle % 4).toNat with
  | zero => exact isRotation_one
  | succ k ih => exact ih.mul (isRotation_quarterTurn a)

theorem apply_mul (m m' : Matrix) (v : Vec) : (m.mul m').apply v = m.apply (m'.apply v) := by
  apply Vec.ext <;> simp only [mul, apply, rowMul, Vec.dot, Vec.add, Vec.scale] <;> grind

@[simp] theorem apply_one (v : Vec) : one.apply v = v := by
  apply Vec.ext <;> simp [one, apply, Vec.dot]

/-- Every row of a rotation is the normal of a face. -/
theorem IsRotation.rows {m : Matrix} (h : m.IsRotation) :
    ∃ one two three : Face, m = ⟨one.normal, two.normal, three.normal⟩ := by
  have all : ∀ m ∈ rotations, ∃ one ∈ Face.all, ∃ two ∈ Face.all, ∃ three ∈ Face.all,
      m = ⟨one.normal, two.normal, three.normal⟩ := by decide +kernel
  obtain ⟨one, -, two, -, three, -, rfl⟩ := all m h
  exact ⟨one, two, three, rfl⟩

/-- A rotation can be done before or after a change of components that respects signs. -/
theorem IsRotation.apply_map {m : Matrix} (h : m.IsRotation) {f : Int → Int}
    (hf : ∀ k, f (-k) = -f k) (v : Vec) : m.apply (v.map f) = (m.apply v).map f := by
  obtain ⟨one, two, three, rfl⟩ := h.rows
  apply Vec.ext <;> exact Vec.dot_map hf _ _

/-- What holds of the components of a vector up to sign holds of those of its image. -/
theorem IsRotation.forall_component {m : Matrix} (h : m.IsRotation) {p : Int → Prop}
    (hp : ∀ k, p k → p (-k)) {v : Vec} (hv : ∀ a : Axis, p (a.component v)) (a : Axis) :
    p (a.component (m.apply v)) := by
  have hdot : ∀ face : Face, p (face.normal.dot v) := by
    intro face
    have hx := hv .x
    have hy := hv .y
    have hz := hv .z
    cases face <;> simp_all [Face.normal, Vec.dot, Axis.component]
  obtain ⟨one, two, three, rfl⟩ := h.rows
  cases a <;> exact hdot _

/-- A rotation depends on its angle modulo four. -/
theorem rotation_emod (a : Axis) (angle : Int) : rotation a (angle % 4) = rotation a angle := by
  unfold rotation
  rw [Int.emod_emod_of_dvd angle (Int.dvd_refl 4)]

theorem rotation_congr (a : Axis) {angle angle' : Int} (h : angle % 4 = angle' % 4) :
    rotation a angle = rotation a angle' := by
  rw [← rotation_emod a angle, h, rotation_emod]

theorem emod_four_cases (angle : Int) :
    angle % 4 = 0 ∨ angle % 4 = 1 ∨ angle % 4 = 2 ∨ angle % 4 = 3 := by
  omega

/-- Modulo four there are four angles. -/
theorem exists_emod_four_eq (angle : Int) : ∃ k : Nat, k < 4 ∧ angle % 4 = (k : Int) % 4 :=
  ⟨(angle % 4).toNat, by omega, by omega⟩

/-- A rotation after another one about the same axis is the rotation by both angles. -/
theorem rotation_mul (a : Axis) (angle angle' : Int) :
    (rotation a angle').mul (rotation a angle) = rotation a (angle + angle') := by
  have small : ∀ a ∈ Axis.all, ∀ k < 4, ∀ k' < 4,
      (rotation a (k' : Nat)).mul (rotation a (k : Nat)) = rotation a ((k + k' : Nat) : Int) := by
    decide +kernel
  obtain ⟨k, hk, hangle⟩ := exists_emod_four_eq angle
  obtain ⟨k', hk', hangle'⟩ := exists_emod_four_eq angle'
  have hsum : (angle + angle') % 4 = ((k + k' : Nat) : Int) % 4 := by omega
  rw [rotation_congr a hangle, rotation_congr a hangle', rotation_congr a hsum,
    small a (by cases a <;> decide) k hk k' hk']

theorem rotation_zero (a : Axis) : rotation a 0 = one := rfl

/-- The rotation by the opposite angle undoes a rotation. -/
theorem rotation_neg_mul (a : Axis) (angle : Int) :
    (rotation a (-angle)).mul (rotation a angle) = one := by
  rw [rotation_mul, Int.add_right_neg, rotation_zero]

/-- What a rotation moves, the rotation by the opposite angle brings back. -/
@[simp] theorem apply_rotation_neg (a : Axis) (angle : Int) (v : Vec) :
    (rotation a (-angle)).apply ((rotation a angle).apply v) = v := by
  rw [← apply_mul, rotation_neg_mul, apply_one]

@[simp] theorem apply_rotation_apply_neg (a : Axis) (angle : Int) (v : Vec) :
    (rotation a angle).apply ((rotation a (-angle)).apply v) = v := by
  have h := apply_rotation_neg a (-angle) v
  rwa [Int.neg_neg] at h

/-- A rotation about an axis keeps the component along the axis. -/
@[simp] theorem component_rotation (a : Axis) (angle : Int) (v : Vec) :
    a.component ((rotation a angle).apply v) = a.component v := by
  rw [← rotation_emod a angle]
  rcases emod_four_cases angle with h | h | h | h <;> rw [h] <;> cases a <;>
    simp [rotation, pow, mul, rowMul, quarterTurn, one, apply, Vec.dot, Vec.add, Vec.scale,
      Axis.component]

end Matrix

end CubeLang
