import CubeLang.Proofs.Cube.TwistSum

/-!
# The core of a cube

The corners, and in a cube with a middle layer also the edge parts in the middle of the edges and
the parts in the middle of the faces, stand at multiples of the directions in which they point out
of the cube. They are the first parts of their kinds, turns carry them to each other, and they move
as the parts of the cube with three layers do. The axes meet no other parts than those in the middle
of the faces.
-/

set_option autoImplicit false

namespace CubeLang

open Turn

variable {n : Nat} {kind : PartKind}

/-- Whether the first parts of a kind stand at multiples of their directions. -/
def HasCore (n : Nat) (kind : PartKind) : Prop := kind = .corner ∨ n % 2 = 1

/-- The locations of the first parts of a kind. -/
def coreLocations (kind : PartKind) : Finset Nat := Finset.range kind.directions

theorem facesPosition_eq_scale (n : Nat) (faces : List Face) :
    facesPosition n faces = (facesPosition 2 faces).scale (n - 1) := by
  have hfold : ∀ v w : Vec, v = w.scale (n - 1) →
      faces.foldl (fun v face => v.add (face.normal.scale (n - 1))) v = (faces.foldl
        (fun v face => v.add (face.normal.scale ((2 : Nat) - 1))) w).scale (n - 1) := by
    induction faces with
    | nil =>
      intro v w h
      exact h
    | cons face faces ih =>
      rintro v w rfl
      refine ih _ _ ?_
      apply Vec.ext <;> simp only [Vec.add, Vec.scale] <;> ring
  exact hfold _ _ (by simp [Vec.scale])

theorem directions_le_count (hn : 2 ≤ n) (hcore : HasCore n kind) :
    kind.directions ≤ kind.count n := by
  rcases hcore with rfl | hodd
  · exact le_refl 8
  · have hinner : 1 ≤ n - 2 := by omega
    cases kind with
    | corner => exact le_refl 8
    | edge => exact Nat.mul_le_mul_left 12 hinner
    | side => exact Nat.mul_le_mul_left 6 (Nat.mul_le_mul hinner hinner)

/-- A part of the core stands at a multiple of its direction. -/
theorem position_core (hn : 2 ≤ n) (hcore : HasCore n kind) {i : Nat} (hi : i < kind.directions) :
    position n kind i = (direction kind i).scale (n - 1) := by
  have hlt : i < kind.count n := lt_of_lt_of_le hi (directions_le_count hn hcore)
  have hget := getElem?_positions hn hlt
  cases kind with
  | corner =>
    rw [positions, cornerPositions, List.getElem?_map, Option.map_eq_some_iff] at hget
    obtain ⟨faces, hfaces, hposition⟩ := hget
    have hdirection : direction .corner i = facesPosition 2 faces := by
      simp [direction, locationFaces, List.getD, hfaces]
    rw [← hposition, facesPosition_eq_scale, hdirection]
  | edge =>
    have hodd : n % 2 = 1 := by simpa [HasCore] using hcore
    have hround : i / 12 = 0 := Nat.div_eq_of_lt hi
    rw [positions, getElem?_edgePositions, Option.bind_eq_some_iff] at hget
    obtain ⟨round, hround', hget⟩ := hget
    obtain ⟨faces, hfaces, hposition⟩ := Option.map_eq_some_iff.mp hget
    obtain rfl : round = 0 := by
      rw [hround, List.getElem?_range (by omega)] at hround'
      exact (Option.some.inj hround').symm
    have hdirection : direction .edge i = facesPosition 2 faces := by
      simp [direction, locationFaces, List.getD, hfaces]
    have hoffset : wingOffset n 0 = 0 := by
      simp [wingOffset, hodd]
    rw [← hposition, edgePosition, hoffset, facesPosition_eq_scale, hdirection]
    simp [Vec.add, Vec.scale]
  | side =>
    have hodd : n % 2 = 1 := by simpa [HasCore] using hcore
    have hring : i / 6 = 0 := Nat.div_eq_of_lt hi
    have hfirst : (sideOffsets n)[0]? = some (0, 0) := by
      simp [sideOffsets, hodd]
    rw [positions, getElem?_sidePositions, hring, hfirst, Option.bind_some,
      Option.map_eq_some_iff] at hget
    obtain ⟨face, hface, hposition⟩ := hget
    rw [← hposition, direction_side, ofIndex_of_getElem? hface]
    simp [sidePosition, Vec.add, Vec.scale]

theorem Matrix.apply_scale (m : Matrix) (k : Int) (v : Vec) :
    m.apply (v.scale k) = (m.apply v).scale k := by
  apply Vec.ext <;> simp only [apply, Vec.dot, Vec.scale] <;> ring

theorem Vec.scale_injective {k : Int} (hk : k ≠ 0) {v w : Vec} (h : v.scale k = w.scale k) :
    v = w := by
  simp only [scale, mk.injEq, mul_eq_mul_left_iff, hk, or_false] at h
  exact Vec.ext h.1 h.2.1 h.2.2

/-- Rotations carry the core to itself as they carry the directions. -/
theorem carries_core_iff (hn : 2 ≤ n) (hcore : HasCore n kind) {m : Matrix} {i j : Nat}
    (hi : i < kind.directions) (hj : j < kind.directions) :
    Carries n kind m i j ↔ m.apply (direction kind i) = direction kind j := by
  have hle := directions_le_count hn hcore
  have hscale : (n : Int) - 1 ≠ 0 := by omega
  constructor
  · intro h
    have hposition := h.position
    rw [position_core hn hcore hi, position_core hn hcore hj, Matrix.apply_scale] at hposition
    exact Vec.scale_injective hscale hposition
  · intro h
    refine ⟨by omega, by omega, ?_⟩
    rw [position_core hn hcore hi, position_core hn hcore hj, Matrix.apply_scale, h]

theorem closed_coreLocations (hn : 2 ≤ n) (hcore : HasCore n kind) :
    Closed n kind (coreLocations kind) := by
  have hle := directions_le_count hn hcore
  constructor
  · intro i hi
    exact lt_of_lt_of_le (Finset.mem_range.mp hi) hle
  · intro axis angle i j hij hi
    have hi := Finset.mem_range.mp hi
    obtain ⟨k, hk, hik⟩ :=
      exists_direction_apply kind (Matrix.isRotation_rotation axis angle) hi
    have hcarries := (carries_core_iff hn hcore hi hk).mpr hik
    obtain rfl : j = k := position_injective hn hij.target_lt hcarries.target_lt
      (hij.position.symm.trans hcarries.position)
    exact Finset.mem_range.mpr hk

theorem closed_range (n : Nat) (kind : PartKind) : Closed n kind (Finset.range (kind.count n)) :=
  ⟨fun _ hi => Finset.mem_range.mp hi, fun hij _ => Finset.mem_range.mpr hij.target_lt⟩

/-- The parts outside of the core are carried to each other only. -/
theorem closed_outside (hn : 2 ≤ n) (hcore : HasCore n kind) :
    Closed n kind (Finset.Ico kind.directions (kind.count n)) := by
  have hclosed := closed_coreLocations hn hcore
  constructor
  · intro i hi
    exact (Finset.mem_Ico.mp hi).2
  · intro axis angle i j hij hi
    have hiff := hclosed.mem_iff hij
    rw [coreLocations, Finset.mem_range, Finset.mem_range] at hiff
    have hi := (Finset.mem_Ico.mp hi).1
    exact Finset.mem_Ico.mpr ⟨by omega, hij.target_lt⟩

/-! ## Off the axes -/

theorem across_map (axis : Axis) (f : Int → Int) (v : Vec) :
    axis.across (v.map f) = (f (axis.across v).1, f (axis.across v).2) := by
  cases axis <;> rfl

theorem outer_zero (hn : 2 ≤ n) : outer n 0 = 0 := by
  unfold outer
  rw [if_neg (by omega), if_neg (by omega)]

/-- A part on an axis points out along this axis. -/
theorem across_direction_of_position (hn : 2 ≤ n) {axis : Axis} {i : Nat} (hi : i < kind.count n)
    (h : axis.across (position n kind i) = (0, 0)) : axis.across (direction kind i) = (0, 0) := by
  rw [← (pointsOut_position hn hi).2, outward, across_map, h, outer_zero hn]

/-- Corners and edge parts are on none of the axes. -/
theorem offAxes_of_ne_side (hn : 2 ≤ n) (hkind : kind ≠ .side) {S : Finset Nat}
    (hS : ∀ i ∈ S, i < kind.count n) : OffAxes n kind S := by
  have all : ∀ kind ∈ PartKind.all, kind ≠ .side → ∀ i < kind.directions, ∀ axis ∈ Axis.all,
      axis.across (direction kind i) ≠ (0, 0) := by decide +kernel
  intro i hi axis h
  have hlt := hS i hi
  have hacross := across_direction_of_position hn hlt h
  rw [← direction_mod kind hlt] at hacross
  exact all kind (by cases kind <;> decide) hkind _ (Nat.mod_lt i (directions_pos kind)) axis
    (by cases axis <;> decide) hacross

/-- Without a middle layer no part is on an axis. -/
theorem offAxes_of_even (hn : 2 ≤ n) (heven : n % 2 = 0) {S : Finset Nat}
    (hS : ∀ i ∈ S, i < kind.count n) : OffAxes n kind S := by
  intro i hi axis h
  have hgrid := (pointsOut_position hn (hS i hi)).1
  have hne : ∀ a : Axis, a.component (position n kind i) ≠ 0 := by
    intro a hzero
    have hparity := (hgrid a).2.2
    rw [hzero] at hparity
    omega
  cases axis with
  | x => exact hne .y (congrArg Prod.fst h)
  | y => exact hne .z (congrArg Prod.fst h)
  | z => exact hne .x (congrArg Prod.fst h)

/-- The parts of the faces that are not in the middle of one are on none of the axes. -/
theorem offAxes_outside (hn : 2 ≤ n) (hodd : n % 2 = 1) :
    OffAxes n .side (Finset.Ico (PartKind.directions .side) (PartKind.count n .side)) := by
  intro i hi axis h
  obtain ⟨hmiddle, hlt⟩ := Finset.mem_Ico.mp hi
  have hi' : i % 6 < PartKind.directions .side := Nat.mod_lt i (by decide)
  have hdirection : direction .side (i % 6) = direction .side i := direction_mod .side hlt
  -- A part on an axis stands where the middle of its face is.
  have hsame : position n .side i = position n .side (i % 6) := by
    rw [position_core hn (Or.inr hodd) hi', hdirection]
    have hacross := across_direction_of_position hn hlt h
    obtain ⟨hgrid, hout⟩ := pointsOut_position hn hlt
    have hcomponent : axis.component (position n .side i) =
        (n - 1) * axis.component (direction .side i) := by
      have hne : axis.component (direction .side i) ≠ 0 := by
        rw [direction_side] at hacross ⊢
        cases hface : Face.ofIndex i <;> cases axis <;>
          simp_all [Face.normal, Axis.across, Axis.component]
      have houter : outer n (axis.component (position n .side i)) =
          axis.component (direction .side i) := by
        rw [← hout]
        cases axis <;> rfl
      rcases (hgrid axis).cases with ⟨hw, hw'⟩ | ⟨hw, hw'⟩ | ⟨-, hw'⟩
      · rw [← houter, hw', hw, mul_one]
      · rw [← houter, hw', hw]
        ring
      · exact absurd (houter.symm.trans hw') hne
    cases axis <;>
      simp only [Axis.across, Axis.component, Prod.mk.injEq] at h hacross hcomponent <;>
      apply Vec.ext <;> simp only [Vec.scale, h, hacross, hcomponent, mul_zero]
  have hcount := lt_of_lt_of_le hi' (directions_le_count hn (Or.inr hodd))
  have heq := position_injective hn hlt hcount hsame
  simp only [PartKind.directions] at hmiddle hi'
  omega

end CubeLang
