import CubeLang.Proofs.Cube.Turn
import Mathlib.Algebra.BigOperators.Fin
import Mathlib.Algebra.BigOperators.Intervals
import Mathlib.Data.ZMod.Basic

/-!
# Sums of twists

The twists at some locations are added up modulo the number of ways in which a part can stand. When
one arrangement follows another, the sums add up. A quarter turn goes round the four quadrants about
its axis, so that the parts that start in one quadrant come back to where they started, untwisted,
after four quarter turns, having met every twist at the locations off the axis once: these twists
add up to nothing.
-/

set_option autoImplicit false

namespace CubeLang

namespace Arrangement

variable {kind : PartKind} {count m : Nat} {a b : Arrangement} {S : Finset Nat}

/-- The sum of the twists at some locations modulo a number. -/
def twistOver (m : Nat) (S : Finset Nat) (a : Arrangement) : ZMod m :=
  ∑ i ∈ S, ((a.slot i).twist : ZMod m)

/-- The locations that some locations take their parts from. -/
def sources (b : Arrangement) (S : Finset Nat) : Finset Nat :=
  S.image fun i => (b.slot i).part

theorem sum_take_twists {k : Nat} (hk : k ≤ a.size) :
    (((a.twists.take k).sum : Nat) : ZMod m) = a.twistOver m (Finset.range k) := by
  have htake : a.twists.take k = List.ofFn fun i : Fin k => (a.slot i).twist := by
    refine List.ext_getElem (by simp [twists, hk]) ?_
    intro i hi hi'
    have hlt : i < a.size := by
      simp [twists] at hi
      omega
    simp [twists, slot_eq_getElem hlt]
  rw [htake, List.sum_ofFn, twistOver, ← Nat.cast_sum, Finset.sum_range]

theorem sum_twists : ((a.twists.sum : Nat) : ZMod m) = a.twistOver m (Finset.range a.size) := by
  rw [← sum_take_twists le_rfl, List.take_of_length_le (by simp [twists])]

theorem sum_drop_twists {k : Nat} (hk : k ≤ a.size) :
    (((a.twists.drop k).sum : Nat) : ZMod m) = a.twistOver m (Finset.Ico k a.size) := by
  have hsplit : (a.twists.sum : ZMod m) =
      ((a.twists.take k).sum : ZMod m) + ((a.twists.drop k).sum : ZMod m) := by
    rw [← Nat.cast_add, List.sum_take_add_sum_drop]
  have hrange : a.twistOver m (Finset.range a.size) =
      a.twistOver m (Finset.range k) + a.twistOver m (Finset.Ico k a.size) :=
    (Finset.sum_range_add_sum_Ico _ hk).symm
  rw [sum_twists, sum_take_twists hk, hrange] at hsplit
  exact (add_left_cancel hsplit).symm

theorem twistOver_solved (m : Nat) (S : Finset Nat) : (solved count).twistOver m S = 0 := by
  simp [twistOver]

/-- Rearranging adds the twists that the parts bring with them to those that they are given. -/
theorem twistOver_andThen (hm : m ∣ kind.modulus) (hb : b.Valid kind count)
    (hS : ∀ i ∈ S, i < count) :
    (a.andThen kind.modulus b).twistOver m S =
      a.twistOver m (b.sources S) + b.twistOver m S := by
  have hinjective : Set.InjOn (fun i => (b.slot i).part) S :=
    fun i hi j hj heq => hb.part_injective (hS i hi) (hS j hj) heq
  unfold twistOver sources
  rw [Finset.sum_image hinjective, ← Finset.sum_add_distrib]
  refine Finset.sum_congr rfl ?_
  intro i hi
  have hlt : i < b.size := by
    rw [hb.size_eq]
    exact hS i hi
  rw [slot_andThen hlt, ← Nat.cast_add, ZMod.natCast_eq_natCast_iff]
  exact (Nat.mod_modEq _ _).of_dvd hm

end Arrangement

/-! ## Quadrants -/

/-- The two components across an axis, such that a clockwise quarter turn carries the second one to
the first. -/
def Axis.across (a : Axis) (v : Vec) : Int × Int :=
  match a with
  | x => (v.y, v.z)
  | y => (v.z, v.x)
  | z => (v.x, v.y)

theorem Matrix.across_quarterTurn (a : Axis) (v : Vec) :
    a.across ((rotation a 1).apply v) = ((a.across v).2, -(a.across v).1) := by
  cases a <;> simp [rotation, pow, mul, rowMul, quarterTurn, one, apply, Vec.dot, Vec.add,
    Vec.scale, Axis.across]

/-- The quadrant of a point of a plane, clockwise from the first one. -/
def quadrant (w : Int × Int) : Nat :=
  if 0 < w.1 ∧ 0 ≤ w.2 then 0
  else if 0 ≤ w.1 ∧ w.2 < 0 then 1
  else if w.1 < 0 ∧ w.2 ≤ 0 then 2
  else 3

theorem quadrant_lt (w : Int × Int) : quadrant w < 4 := by
  unfold quadrant
  split_ifs <;> omega

/-- A quarter turn carries every quadrant to the next one. -/
theorem quadrant_turned {p q : Int} (h : (p, q) ≠ (0, 0)) :
    quadrant (q, -p) = (quadrant (p, q) + 1) % 4 := by
  have hne : p ≠ 0 ∨ q ≠ 0 := by
    by_contra hboth
    simp only [not_or, not_not] at hboth
    exact h (by rw [hboth.1, hboth.2])
  unfold quadrant
  simp only
  split_ifs <;> omega

namespace Turn

variable {n : Nat} {kind : PartKind} {axis : Axis} {mask : Nat} {angle : Int} {S : Finset Nat}

/-- Locations of a kind that turns carry to each other only. -/
structure Closed (n : Nat) (kind : PartKind) (S : Finset Nat) : Prop where
  lt : ∀ i ∈ S, i < kind.count n
  carried : ∀ {axis angle i j}, Carries n kind (Matrix.rotation axis angle) i j → i ∈ S → j ∈ S

/-- Locations that are on none of the three axes. -/
def OffAxes (n : Nat) (kind : PartKind) (S : Finset Nat) : Prop :=
  ∀ i ∈ S, ∀ axis : Axis, axis.across (position n kind i) ≠ (0, 0)

theorem Carries.reverse {i j : Nat} (h : Carries n kind (Matrix.rotation axis angle) i j) :
    Carries n kind (Matrix.rotation axis (-angle)) j i := by
  refine ⟨h.target_lt, h.source_lt, ?_⟩
  rw [← h.position, Matrix.apply_rotation_neg]

theorem Closed.mem_iff (hS : Closed n kind S) {i j : Nat}
    (h : Carries n kind (Matrix.rotation axis angle) i j) : i ∈ S ↔ j ∈ S :=
  ⟨hS.carried h, hS.carried (Carries.reverse h)⟩

/-- The parts at closed locations come from the same locations, whatever layers are turned. -/
theorem Closed.sources_arrangement (hn : 2 ≤ n) (hS : Closed n kind S) (axis : Axis) (mask : Nat)
    (angle : Int) : (arrangement n kind axis mask angle).sources S = S := by
  have hvalid := valid_arrangement hn kind axis mask angle
  have hsub : (arrangement n kind axis mask angle).sources S ⊆ S := by
    intro p hp
    obtain ⟨j, hj, rfl⟩ := Finset.mem_image.mp hp
    have hlt := hS.lt j hj
    cases hlayer : mask.testBit (layerAt n kind axis j) with
    | false => rwa [slot_of_not_mem hn hlt hlayer]
    | true =>
      obtain ⟨i, hij⟩ := exists_source hn hlt axis angle
      rw [layerAt_of_carries hij] at hlayer
      rw [slot_of_carries hn hij hlayer]
      exact (hS.mem_iff hij).mpr hj
  refine Finset.eq_of_subset_of_card_le hsub (le_of_eq ?_)
  refine (Finset.card_image_of_injOn ?_).symm
  intro i hi j hj heq
  exact hvalid.part_injective (hS.lt i hi) (hS.lt j hj) heq

/-- The turned locations of a quadrant. -/
def quarter (n : Nat) (kind : PartKind) (axis : Axis) (mask : Nat) (S : Finset Nat) (q : Nat) :
    Finset Nat :=
  S.filter fun i => mask.testBit (layerAt n kind axis i) = true ∧
    quadrant (axis.across (position n kind i)) = q % 4

theorem mem_quarter {q i : Nat} : i ∈ quarter n kind axis mask S q ↔
    i ∈ S ∧ mask.testBit (layerAt n kind axis i) = true ∧
      quadrant (axis.across (position n kind i)) = q % 4 := by
  rw [quarter, Finset.mem_filter]

/-- The turned locations of a quadrant take their parts from those of the quadrant before it. -/
theorem sources_quarter (hn : 2 ≤ n) (hS : Closed n kind S) (hoff : OffAxes n kind S) (q : Nat) :
    (arrangement n kind axis mask 1).sources (quarter n kind axis mask S (q + 1)) =
      quarter n kind axis mask S q := by
  have hnext : ∀ {i j}, Carries n kind (Matrix.rotation axis 1) i j → i ∈ S →
      (i ∈ quarter n kind axis mask S q ↔ j ∈ quarter n kind axis mask S (q + 1)) := by
    intro i j hij hi
    have hquadrant : quadrant (axis.across (position n kind j)) =
        (quadrant (axis.across (position n kind i)) + 1) % 4 := by
      rw [← hij.position, Matrix.across_quarterTurn]
      exact quadrant_turned (hoff i hi axis)
    have hlt := quadrant_lt (axis.across (position n kind i))
    rw [mem_quarter, mem_quarter, hS.mem_iff hij, layerAt_of_carries hij, hquadrant]
    refine and_congr_right fun _ => and_congr_right fun _ => ?_
    omega
  ext i
  rw [Arrangement.sources, Finset.mem_image]
  constructor
  · rintro ⟨j, hj, rfl⟩
    obtain ⟨hmem, hlayer, -⟩ := mem_quarter.mp hj
    obtain ⟨i, hij⟩ := exists_source hn (hS.lt j hmem) axis 1
    rw [layerAt_of_carries hij] at hlayer
    rw [slot_of_carries hn hij hlayer]
    exact (hnext hij ((hS.mem_iff hij).mpr hmem)).mpr hj
  · intro hi
    obtain ⟨hmem, hlayer, -⟩ := mem_quarter.mp hi
    obtain ⟨j, hij⟩ := exists_target hn (hS.lt i hmem) axis 1
    exact ⟨j, (hnext hij hmem).mp hi, by rw [slot_of_carries hn hij hlayer]⟩

/-- The twists that a quarter turn makes at closed locations are those that it makes in the four
quadrants. -/
theorem twistOver_eq_sum_quarter (hn : 2 ≤ n) (hS : Closed n kind S) :
    (arrangement n kind axis mask 1).twistOver kind.modulus S =
      ∑ q ∈ Finset.range 4,
        (arrangement n kind axis mask 1).twistOver kind.modulus (quarter n kind axis mask S q) := by
  -- What the turn leaves in place has no twist.
  have hstill : (arrangement n kind axis mask 1).twistOver kind.modulus S =
      (arrangement n kind axis mask 1).twistOver kind.modulus
        (S.filter fun i => mask.testBit (layerAt n kind axis i) = true) := by
    refine (Finset.sum_filter_of_ne ?_).symm
    intro i hi hne
    by_contra hlayer
    rw [slot_of_not_mem hn (hS.lt i hi) (by simpa using hlayer)] at hne
    simp at hne
  have hquadrant : ∀ i ∈ S.filter fun i => mask.testBit (layerAt n kind axis i) = true,
      quadrant (axis.across (position n kind i)) ∈ Finset.range 4 :=
    fun i _ => Finset.mem_range.mpr (quadrant_lt _)
  rw [hstill, Arrangement.twistOver, ← Finset.sum_fiberwise_of_maps_to hquadrant]
  refine Finset.sum_congr rfl ?_
  intro q hq
  have hmod : q % 4 = q := Nat.mod_eq_of_lt (Finset.mem_range.mp hq)
  rw [Arrangement.twistOver, quarter, Finset.filter_filter, hmod]

/-- The twists that a quarter turn makes off its axis add up to nothing. -/
theorem twistOver_quarterTurn (hn : 2 ≤ n) (hS : Closed n kind S) (hoff : OffAxes n kind S)
    (axis : Axis) (mask : Nat) : (arrangement n kind axis mask 1).twistOver kind.modulus S = 0 := by
  have hlt : ∀ q, ∀ i ∈ quarter n kind axis mask S q, i < kind.count n :=
    fun q i hi => hS.lt i (mem_quarter.mp hi).1
  -- One more quarter turn adds its twists in a quadrant to those in the quadrant before.
  have hstep : ∀ k q : Nat,
      (arrangement n kind axis mask (k + 1 : Nat)).twistOver kind.modulus
          (quarter n kind axis mask S (q + 1)) =
        (arrangement n kind axis mask k).twistOver kind.modulus (quarter n kind axis mask S q) +
          (arrangement n kind axis mask 1).twistOver kind.modulus
            (quarter n kind axis mask S (q + 1)) := by
    intro k q
    rw [Nat.cast_succ, ← arrangement_andThen_add hn,
      Arrangement.twistOver_andThen dvd_rfl (valid_arrangement hn kind axis mask 1) (hlt (q + 1)),
      sources_quarter hn hS hoff]
  have hfull : arrangement n kind axis mask (4 : Nat) = Arrangement.solved (kind.count n) := by
    rw [← arrangement_no_angle hn kind axis mask, ← arrangement_emod]
    rfl
  have hround := hstep 3 3
  rw [hstep 2 2, hstep 1 1, hstep 0 0, hfull, Arrangement.twistOver_solved, Nat.cast_zero,
    arrangement_no_angle hn, Arrangement.twistOver_solved] at hround
  have hagain : quarter n kind axis mask S (3 + 1) = quarter n kind axis mask S 0 := rfl
  rw [hagain] at hround
  rw [twistOver_eq_sum_quarter hn hS]
  simp only [Finset.sum_range_succ, Finset.sum_range_zero]
  refine Eq.trans ?_ hround.symm
  ring

/-- So do those that any turn makes off the axes. -/
theorem twistOver_arrangement (hn : 2 ≤ n) (hS : Closed n kind S) (hoff : OffAxes n kind S)
    (axis : Axis) (mask : Nat) (angle : Int) :
    (arrangement n kind axis mask angle).twistOver kind.modulus S = 0 := by
  have hnat : ∀ k : Nat, (arrangement n kind axis mask k).twistOver kind.modulus S = 0 := by
    intro k
    induction k with
    | zero => rw [Nat.cast_zero, arrangement_no_angle hn, Arrangement.twistOver_solved]
    | succ k ih =>
      rw [Nat.cast_succ, ← arrangement_andThen_add hn,
        Arrangement.twistOver_andThen dvd_rfl (valid_arrangement hn kind axis mask 1) hS.lt,
        hS.sources_arrangement hn, ih, twistOver_quarterTurn hn hS hoff, add_zero]
  rw [← arrangement_emod, ← Int.toNat_of_nonneg (Int.emod_nonneg angle (by decide))]
  exact hnat _

end Turn

end CubeLang
