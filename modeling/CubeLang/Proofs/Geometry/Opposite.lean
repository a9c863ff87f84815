import CubeLang.Proofs.Cube.Turn

/-!
# The point reflection of the cube

The reflection in the middle of the cube carries positions to positions and commutes with rotations.
It turns orientations round: the frame of a location becomes that of the opposite location gone
through backwards. So a rotation twists the parts on both sides by opposite amounts.
-/

set_option autoImplicit false

namespace CubeLang

open Turn

/-- The vector in the opposite direction. -/
def Vec.opposite (v : Vec) : Vec := v.map fun w => -w

theorem Axis.component_opposite (a : Axis) (v : Vec) :
    a.component v.opposite = -a.component v := by
  cases a <;> rfl

/-- A rotation can be done before or after the reflection. -/
theorem Matrix.IsRotation.apply_opposite {m : Matrix} (h : m.IsRotation) (v : Vec) :
    m.apply v.opposite = (m.apply v).opposite :=
  h.apply_map (fun _ => rfl) v

section

variable {n : Nat} {kind : PartKind} {m : Matrix} {i j : Nat}

/-! ## Opposite locations -/

/-- The direction opposite to one of a kind is one of the kind too. -/
theorem exists_direction_opposite (kind : PartKind) {i : Nat} (hi : i < kind.directions) :
    ∃ j < kind.directions, (direction kind i).opposite = direction kind j := by
  have all : ∀ kind ∈ PartKind.all, ∀ i < kind.directions,
      ∃ j < kind.directions, (direction kind i).opposite = direction kind j := by decide +kernel
  exact all kind (by cases kind <;> decide) i hi

/-- The reflection of what points out of the cube points out in the opposite direction. -/
theorem PointsOut.opposite (hn : 2 ≤ n) {v d : Vec} (h : PointsOut n v d) :
    PointsOut n v.opposite d.opposite := by
  obtain ⟨hgrid, rfl⟩ := h
  constructor
  · intro a
    obtain ⟨hlow, hhigh, hparity⟩ := hgrid a
    rw [a.component_opposite]
    unfold OnGrid
    omega
  · simp only [outward, Vec.opposite, Vec.map, outer_neg hn]

/-- The reflection carries positions to positions. -/
theorem opposite_mem_positions (hn : 2 ≤ n) {v : Vec} (h : v ∈ positions n kind) :
    v.opposite ∈ positions n kind := by
  obtain ⟨i, hi, hv⟩ := (mem_positions hn).mp h
  obtain ⟨j, hj, hij⟩ := exists_direction_opposite kind hi
  refine (mem_positions hn).mpr ⟨j, hj, ?_⟩
  rw [← hij]
  exact hv.opposite hn

/-- The location on the other side of the cube: the one at the opposite position. -/
def oppositeLocation (n : Nat) (kind : PartKind) (i : Nat) : Nat :=
  locationAt n kind (position n kind i).opposite

theorem oppositeLocation_lt (hn : 2 ≤ n) (hi : i < kind.count n) :
    oppositeLocation n kind i < kind.count n :=
  locationAt_lt hn (opposite_mem_positions hn (position_mem hn hi))

theorem position_oppositeLocation (hn : 2 ≤ n) (hi : i < kind.count n) :
    position n kind (oppositeLocation n kind i) = (position n kind i).opposite :=
  position_locationAt (opposite_mem_positions hn (position_mem hn hi))

/-- Two reflections cancel. -/
theorem oppositeLocation_oppositeLocation (hn : 2 ≤ n) (hi : i < kind.count n) :
    oppositeLocation n kind (oppositeLocation n kind i) = i := by
  have htwice : ∀ v : Vec, v.opposite.opposite = v := by
    intro v
    simp [Vec.opposite, Vec.map]
  rw [oppositeLocation, position_oppositeLocation hn hi, htwice, locationAt_position hn hi]

/-- The opposite location points out of the cube in the opposite direction. -/
theorem direction_oppositeLocation (hn : 2 ≤ n) (hi : i < kind.count n) :
    direction kind (oppositeLocation n kind i) = (direction kind i).opposite := by
  have hhere := (pointsOut_position hn hi).opposite hn
  have hthere := pointsOut_position hn (oppositeLocation_lt hn hi)
  rw [position_oppositeLocation hn hi] at hthere
  rw [← hthere.2, hhere.2]

/-- The opposite location is in the layer with the same number from the other end. -/
theorem layerAt_oppositeLocation (hn : 2 ≤ n) (hi : i < kind.count n) (axis : Axis) :
    layerAt n kind axis (oppositeLocation n kind i) = n - 1 - layerAt n kind axis i := by
  refine layerOf_of_neg ((pointsOut_position hn hi).1 axis) ?_
  rw [position_oppositeLocation hn hi, axis.component_opposite]

/-- The opposite side location is on the opposite face. -/
theorem oppositeLocation_side_mod (hn : 2 ≤ n) (hi : i < PartKind.side.count n) :
    oppositeLocation n .side i % 6 = (i + 3) % 6 := by
  have all : ∀ i < 6, ∀ j < 6,
      direction .side j = (direction .side i).opposite → j = (i + 3) % 6 := by decide +kernel
  have hj := oppositeLocation_lt hn hi
  have hdirection := direction_oppositeLocation hn hi
  rw [← direction_mod .side hi, ← direction_mod .side hj] at hdirection
  have hface := all (i % 6) (Nat.mod_lt i (by decide)) _ (Nat.mod_lt _ (by decide)) hdirection
  omega

/-! ## Twists on opposite sides -/

/-- A rotation that carries one location to another one carries the opposite location to the
opposite one. -/
theorem Carries.opposite (hn : 2 ≤ n) (hm : m.IsRotation) (h : Carries n kind m i j) :
    Carries n kind m (oppositeLocation n kind i) (oppositeLocation n kind j) where
  source_lt := oppositeLocation_lt hn h.source_lt
  target_lt := oppositeLocation_lt hn h.target_lt
  position := by
    rw [position_oppositeLocation hn h.source_lt, position_oppositeLocation hn h.target_lt,
      hm.apply_opposite, h.position]

/-- Where the reflection of a frame begins in the frame of the opposite location gone through
backwards. -/
def PartKind.mirrorStart : PartKind → Nat
  | .corner => 2
  | .edge => 1
  | .side => 0

/-- The reflection turns frames round. -/
theorem map_opposite_frame (hn : 2 ≤ n) (hi : i < kind.count n) :
    (frame kind i).map Vec.opposite =
      (frame kind (oppositeLocation n kind i)).reverse.rotate kind.mirrorStart := by
  have all : ∀ kind ∈ PartKind.all, ∀ i < kind.directions, ∀ j < kind.directions,
      direction kind j = (direction kind i).opposite →
        (frame kind i).map Vec.opposite = (frame kind j).reverse.rotate kind.mirrorStart := by
    decide +kernel
  have hj := oppositeLocation_lt hn hi
  rw [← frame_mod kind hi, ← frame_mod kind hj]
  refine all kind (by cases kind <;> decide) _ (Nat.mod_lt i (directions_pos kind)) _
    (Nat.mod_lt _ (directions_pos kind)) ?_
  rw [direction_mod kind hi, direction_mod kind hj, direction_oppositeLocation hn hi]

/-- A rotation twists opposite parts by opposite amounts. -/
theorem twistBetween_opposite (hn : 2 ≤ n) (hm : m.IsRotation) (h : Carries n kind m i j) :
    (twistBetween kind m i j +
      twistBetween kind m (oppositeLocation n kind i) (oppositeLocation n kind j)) %
        kind.modulus = 0 := by
  obtain ⟨hlt, hframe⟩ := h.map_frame hn hm
  obtain ⟨hlt', hframe'⟩ := (h.opposite hn hm).map_frame hn hm
  obtain ⟨hlength, hnodup⟩ := frame_shape (n := n) (h.opposite hn hm).target_lt
  generalize twistBetween kind m i j = t at hlt hframe ⊢
  generalize twistBetween kind m (oppositeLocation n kind i) (oppositeLocation n kind j) = t'
    at hlt' hframe' ⊢
  have hcommute : ((frame kind i).map Vec.opposite).map m.apply =
      ((frame kind i).map m.apply).map Vec.opposite := by
    rw [List.map_map, List.map_map]
    exact List.map_congr_left fun v _ => hm.apply_opposite v
  -- Reflected and then rotated, the frame is turned back by one twist; rotated and then reflected,
  -- it is turned on by the other one.
  have hturned :
      (frame kind (oppositeLocation n kind j)).reverse.rotate
          (kind.modulus - t' % kind.modulus + kind.mirrorStart) =
        (frame kind (oppositeLocation n kind j)).reverse.rotate (kind.mirrorStart + t) := by
    calc _ = ((frame kind i).map Vec.opposite).map m.apply := by
          rw [map_opposite_frame hn h.source_lt, List.map_rotate, List.map_reverse, hframe',
            List.reverse_rotate, List.rotate_rotate, hlength]
      _ = ((frame kind i).map m.apply).map Vec.opposite := hcommute
      _ = _ := by
          rw [hframe, List.map_rotate, map_opposite_frame hn h.target_lt, List.rotate_rotate]
  have hlength' : (frame kind (oppositeLocation n kind j)).reverse.length = kind.modulus := by
    rw [List.length_reverse, hlength]
  have hmod := mod_eq_of_rotate_eq hlength' (List.nodup_reverse.mpr hnodup) hturned
  rw [Nat.mod_eq_of_lt hlt'] at hmod
  cases kind <;> simp only [PartKind.modulus, PartKind.mirrorStart] at * <;> omega

end

end CubeLang
