import CubeLang.Proofs.Move

/-!
# Turns of a rotated cube

A rotation of the whole cube brings other layers to where some layers were. What a turn does after
the rotation, a turn of the layers that are brought there does before it. The inverse of the
rotation carries the axis of the one turn to that of the other; where it carries it to the other
end, the layers are counted from that end, and the turn goes the other way round.
-/

set_option autoImplicit false

namespace CubeLang

open Turn

/-! ## Rotated axes -/

namespace Matrix

/-- The row of a matrix that gives the component along an axis. -/
def row (m : Matrix) : Axis → Vec
  | .x => m.row1
  | .y => m.row2
  | .z => m.row3

/-- A component of a rotated vector is the inner product with the axis rotated back. -/
theorem component_apply_rotation (a b : Axis) (k : Int) (v : Vec) :
    b.component ((rotation a k).apply v) = ((rotation a (-k)).apply b.unit).dot v := by
  have all : ∀ a ∈ Axis.all, ∀ b ∈ Axis.all, ∀ q < 4,
      (rotation a (q : Nat)).row b = (rotation a (-(q : Nat))).apply b.unit := by decide +kernel
  obtain ⟨q, hq, hk⟩ := exists_emod_four_eq k
  have hback : -k % 4 = -(q : Int) % 4 := by omega
  rw [rotation_congr a hk, rotation_congr a hback,
    ← all a (by cases a <;> decide) b (by cases b <;> decide) q hq]
  cases b <;> rfl

end Matrix

/-- Whether the inverse of a rotation about the axis `a` carries the axis `b` to the axis `b'`: to
the same end of it if `s` is one, to the other end if `s` is minus one. -/
structure CarriedBack (a : Axis) (k : Int) (b b' : Axis) (s : Int) : Prop where
  sign : s = 1 ∨ s = -1
  axis : (Matrix.rotation a (-k)).apply b.unit = b'.unit.scale s

namespace CarriedBack

variable {a b b' : Axis} {k s : Int}

/-- Every axis is carried back to one of the three. -/
theorem exists_axis (a : Axis) (k : Int) (b : Axis) : ∃ b' s, CarriedBack a k b b' s := by
  have all : ∀ a ∈ Axis.all, ∀ b ∈ Axis.all, ∀ q < 4, ∃ b' ∈ Axis.all, ∃ s ∈ [(1 : Int), -1],
      (Matrix.rotation a (-(q : Nat))).apply b.unit = b'.unit.scale s := by decide +kernel
  obtain ⟨q, hq, hk⟩ := Matrix.exists_emod_four_eq k
  obtain ⟨b', -, s, hs, haxis⟩ := all a (by cases a <;> decide) b (by cases b <;> decide) q hq
  have hback : -k % 4 = -(q : Int) % 4 := by omega
  exact ⟨b', s, by simpa using hs, by rw [Matrix.rotation_congr a hback, haxis]⟩

/-- The component along an axis after the rotation is that along the axis it was before. -/
theorem component_apply (h : CarriedBack a k b b' s) (v : Vec) :
    b.component ((Matrix.rotation a k).apply v) = s * b'.component v := by
  rw [Matrix.component_apply_rotation, h.axis]
  cases b' <;> simp [Vec.dot, Vec.scale, Axis.unit, Axis.component]

/-- A rotation about an axis after the rotation of the cube is one about the axis carried back
before it. -/
theorem rotation_mul (h : CarriedBack a k b b' s) (j : Int) :
    (Matrix.rotation b j).mul (Matrix.rotation a k) =
      (Matrix.rotation a k).mul (Matrix.rotation b' (s * j)) := by
  have all : ∀ a ∈ Axis.all, ∀ b ∈ Axis.all, ∀ b' ∈ Axis.all, ∀ q < 4, ∀ s ∈ [(1 : Int), -1],
      (Matrix.rotation a (-(q : Nat))).apply b.unit = b'.unit.scale s → ∀ r < 4,
        (Matrix.rotation b (r : Nat)).mul (Matrix.rotation a (q : Nat)) =
          (Matrix.rotation a (q : Nat)).mul (Matrix.rotation b' (s * (r : Nat))) := by
    decide +kernel
  obtain ⟨q, hq, hk⟩ := Matrix.exists_emod_four_eq k
  obtain ⟨r, hr, hj⟩ := Matrix.exists_emod_four_eq j
  have hback : -(q : Int) % 4 = -k % 4 := by omega
  have haxis : (Matrix.rotation a (-(q : Int))).apply b.unit = b'.unit.scale s := by
    rw [Matrix.rotation_congr a hback, h.axis]
  have hturned : (s * j) % 4 = (s * r) % 4 := by
    rcases h.sign with rfl | rfl <;> omega
  rw [Matrix.rotation_congr b hj, Matrix.rotation_congr a hk, Matrix.rotation_congr b' hturned]
  exact all a (by cases a <;> decide) b (by cases b <;> decide) b' (by cases b' <;> decide) q hq s
    (by rcases h.sign with rfl | rfl <;> decide) haxis r hr

end CarriedBack

/-! ## Layers that are brought elsewhere -/

section

variable {n : Nat} {kind : PartKind} {a b b' : Axis} {k s : Int} {mask : Nat} {i j : Nat}

/-- The layers that the rotation brings to where the layers in `mask` were. -/
def layersBefore (n : Nat) (s : Int) (mask : Nat) : Nat :=
  if s = 1 then mask else LayerMask.reverse mask n

theorem layersBefore_lt (hn : 2 ≤ n) (s : Int) (hmask : mask < 2 ^ n) :
    layersBefore n s mask < 2 ^ n := by
  unfold layersBefore
  split
  · exact hmask
  · exact LayerMask.reverse_lt (by omega) hmask

/-- A location is in one of the layers before the rotation if it is brought into one of those after
it. -/
theorem CarriedBack.testBit_layersBefore (hn : 2 ≤ n) (h : CarriedBack a k b b' s)
    (hmask : mask < 2 ^ n) (hij : Carries n kind (Matrix.rotation a k) i j) :
    (layersBefore n s mask).testBit (layerAt n kind b' i) = mask.testBit (layerAt n kind b j) := by
  have hcomponent : b.component (position n kind j) = s * b'.component (position n kind i) := by
    rw [← hij.position, h.component_apply]
  rcases h.sign with rfl | rfl
  · have hsame : layerAt n kind b j = layerAt n kind b' i := by
      rw [layerAt, layerAt, layerOf, layerOf, hcomponent, Int.one_mul]
    rw [layersBefore, if_pos rfl, hsame]
  · have hgrid := (pointsOut_position hn hij.source_lt).1 b'
    have hother : layerAt n kind b j = n - 1 - layerAt n kind b' i :=
      layerOf_of_neg hgrid (by rw [hcomponent, Int.neg_one_mul])
    rw [layersBefore, if_neg (by decide),
      LayerMask.testBit_reverse hmask (layerAt_lt hn hij.source_lt), hother]

/-- All layers are turned. -/
theorem testBit_layerAt_of_all (hn : 2 ≤ n) (hi : i < kind.count n) :
    (2 ^ n - 1).testBit (layerAt n kind a i) = true := by
  rw [Nat.testBit_two_pow_sub_one, decide_eq_true_eq]
  exact layerAt_lt hn hi

/-- Where a part comes by the turn before the rotation and then by the rotation, it comes by the
rotation first and then by the turn after it, and is twisted by as much. -/
theorem CarriedBack.exists_other_way (hn : 2 ≤ n) (h : CarriedBack a k b b' s) {t : Int}
    {w x z : Nat} (hzw : Carries n kind (Matrix.rotation b' (s * t)) z w)
    (hwx : Carries n kind (Matrix.rotation a k) w x) :
    ∃ y, Carries n kind (Matrix.rotation a k) z y ∧ Carries n kind (Matrix.rotation b t) y x ∧
      (twistBetween kind (Matrix.rotation a k) z y + twistBetween kind (Matrix.rotation b t) y x) %
          kind.modulus =
        (twistBetween kind (Matrix.rotation b' (s * t)) z w +
          twistBetween kind (Matrix.rotation a k) w x) % kind.modulus := by
  obtain ⟨y, hzy⟩ := exists_target hn hzw.source_lt a k
  have hyx : Carries n kind (Matrix.rotation b t) y x := by
    refine ⟨hzy.target_lt, hwx.target_lt, ?_⟩
    rw [← hzy.position, ← Matrix.apply_mul, h.rotation_mul, Matrix.apply_mul, hzw.position,
      hwx.position]
  have htwist := twistBetween_mul hn (Matrix.isRotation_rotation a k)
    (Matrix.isRotation_rotation b t) hzy hyx
  have htwist' := twistBetween_mul hn (Matrix.isRotation_rotation b' (s * t))
    (Matrix.isRotation_rotation a k) hzw hwx
  rw [h.rotation_mul] at htwist
  exact ⟨y, hzy, hyx, htwist.symm.trans htwist'⟩

/-- A turn after a rotation of the whole cube rearranges the parts of a kind as the rotation does
after the turn of the layers that it brings there. -/
theorem CarriedBack.arrangement_andThen (hn : 2 ≤ n) (h : CarriedBack a k b b' s)
    (hmask : mask < 2 ^ n) (kind : PartKind) (t : Int) :
    (arrangement n kind a (2 ^ n - 1) k).andThen kind.modulus (arrangement n kind b mask t) =
      (arrangement n kind b' (layersBefore n s mask) (s * t)).andThen kind.modulus
        (arrangement n kind a (2 ^ n - 1) k) := by
  refine Arrangement.ext_slot (by simp [size_arrangement hn]) ?_
  intro x hx
  rw [Arrangement.size_andThen] at hx
  have hlt : x < kind.count n := by rwa [size_arrangement hn] at hx
  have hx' : x < (arrangement n kind a (2 ^ n - 1) k).size := by rwa [size_arrangement hn]
  have hrotated : ∀ {i j}, Carries n kind (Matrix.rotation a k) i j →
      (arrangement n kind a (2 ^ n - 1) k).slot j =
        ⟨i, twistBetween kind (Matrix.rotation a k) i j⟩ :=
    fun hij => slot_of_carries hn hij (testBit_layerAt_of_all hn hij.source_lt)
  rw [Arrangement.slot_andThen hx, Arrangement.slot_andThen hx']
  -- The rotation brings to `x` what is at `w`.
  obtain ⟨w, hwx⟩ := exists_source hn hlt a k
  have hlayer := h.testBit_layersBefore hn hmask hwx
  rw [hrotated hwx]
  cases hbit : mask.testBit (layerAt n kind b x) with
  | false =>
    rw [hbit] at hlayer
    rw [slot_of_not_mem hn hlt hbit, slot_of_not_mem hn hwx.source_lt hlayer, hrotated hwx]
    simp
  | true =>
    rw [hbit] at hlayer
    -- One way the part comes from `z` through `w`, the other way through `y`.
    obtain ⟨z, hzw⟩ := exists_source hn hwx.source_lt b' (s * t)
    obtain ⟨y, hzy, hyx, htwist⟩ := h.exists_other_way hn hzw hwx
    rw [layerAt_of_carries hyx] at hbit
    rw [layerAt_of_carries hzw] at hlayer
    rw [slot_of_carries hn hyx hbit, slot_of_carries hn hzw hlayer, hrotated hzy]
    simp only [htwist]

end

/-! ## Cubes -/

namespace Cube

variable {n : Nat} {c : Cube}

/-- **A rotation of the whole cube conjugates turns.** The inverse of the rotation carries the axis
of a turn to one of the three axes; and to whichever axis it carries it, the turn after the rotation
makes of every valid state what the rotation makes of it after the turn about that axis, of the same
layers and by the same angle, or, if the axis is carried to the other end of that axis, of the
reversed layers and by the opposite angle. -/
theorem turn_after_rotation (hn : 2 ≤ n) (hc : c.Valid n) (a : Axis) {k : Int}
    (hk : k ∈ [-2, -1, 1, 2]) (t : LegalTurn n) :
    (∃ b s, CarriedBack a k t.axis b s) ∧
      ∀ b s, CarriedBack a k t.axis b s →
        ∃ rotated turned c', c.turn a.index (2 ^ n - 1 : Nat) k = .ok rotated ∧
          rotated.turn t.axis.index t.mask t.angle = .ok c' ∧
          c.turn b.index (if s = 1 then t.mask else LayerMask.reverse t.mask n : Nat)
            (s * t.angle) = .ok turned ∧
          turned.turn a.index (2 ^ n - 1 : Nat) k = .ok c' := by
  refine ⟨CarriedBack.exists_axis a k t.axis, ?_⟩
  intro b s h
  have hangle : s * t.angle ∈ [-2, -1, 1, 2] := by
    have hmem := t.angle_mem
    simp only [List.mem_cons, List.not_mem_nil, or_false] at hmem ⊢
    rcases h.sign with rfl | rfl <;> omega
  have hall : 2 ^ n - 1 < 2 ^ n := Nat.sub_lt (Nat.two_pow_pos n) Nat.one_pos
  have hbefore : layersBefore n s t.mask < 2 ^ n := layersBefore_lt hn s t.mask_lt
  have hrotated := valid_ofTurn hn a (2 ^ n - 1) k
  have hturned := valid_ofTurn hn b (layersBefore n s t.mask) (s * t.angle)
  have hsame : (ofTurn n a (2 ^ n - 1) k).andThen (ofTurn n t.axis t.mask t.angle) =
      (ofTurn n b (layersBefore n s t.mask) (s * t.angle)).andThen
        (ofTurn n a (2 ^ n - 1) k) := by
    refine ext_arrangement (show n = n from rfl) ?_
    intro kind
    simp only [arrangement_andThen, arrangement_ofTurn]
    exact h.arrangement_andThen hn t.mask_lt kind t.angle
  have hfirst := turn_legal hn hc ⟨a, 2 ^ n - 1, hall, k, hk⟩
  have hsecond := turn_legal hn (hc.andThen hrotated) t
  have hfirst' := turn_legal hn hc ⟨b, layersBefore n s t.mask, hbefore, s * t.angle, hangle⟩
  have hsecond' := turn_legal hn (hc.andThen hturned) ⟨a, 2 ^ n - 1, hall, k, hk⟩
  rw [hrotated.andThen_assoc (valid_ofTurn hn t.axis t.mask t.angle), hsame,
    ← hturned.andThen_assoc hrotated] at hsecond
  exact ⟨_, _, _, hfirst, hsecond, hfirst', hsecond'⟩

/-- The two layers at the back of a cube with four layers, once the cube was rotated about the axis
to the right, are the two upper ones before, and are turned the other way round. -/
theorem turn_after_rotation_backLayers :
    2 ≤ 4 ∧ (ofTurn 4 .y 5 1).Valid 4 ∧ (1 : Int) ∈ [-2, -1, 1, 2] ∧ CarriedBack .x 1 .z .y (-1) ∧
      ∃ rotated turned c', (ofTurn 4 .y 5 1).turn 0 15 1 = .ok rotated ∧
        rotated.turn 2 3 (-1) = .ok c' ∧ (ofTurn 4 .y 5 1).turn 1 12 1 = .ok turned ∧
        turned.turn 0 15 1 = .ok c' := by
  have hback : CarriedBack .x 1 .z .y (-1) := ⟨Or.inr rfl, by decide⟩
  have hvalid := valid_ofTurn (n := 4) (by decide) .y 5 1
  have hlayers : (if (-1 : Int) = 1 then 3 else LayerMask.reverse 3 4) = 12 := by decide +kernel
  obtain ⟨rotated, turned, c', hfirst, hsecond, hfirst', hsecond'⟩ :=
    (turn_after_rotation (by decide) hvalid .x (by decide)
      ⟨.z, 3, by decide, -1, by decide⟩).2 .y (-1) hback
  rw [hlayers] at hfirst'
  exact ⟨by decide, hvalid, by decide, hback, rotated, turned, c', hfirst, hsecond, hfirst',
    hsecond'⟩

end Cube

end CubeLang
