import CubeLang.Proofs.Geometry.Position
import Mathlib.Data.List.Rotate

/-!
# Twists

Every location has a frame: the normals of its faces, anticlockwise from the first one, or for a
side location the directions on its face, anticlockwise from the reference. A rotation carries the
frame of a location to that of the location it leads to, turned by the twist. So twists add up when
rotations follow each other, whatever the locations on the way.
-/

set_option autoImplicit false

namespace CubeLang

open Turn

/-- The frame of a location. -/
def frame : PartKind → Nat → List Vec
  | .side, i =>
    let turned := (Face.ofIndex i).anticlockwise
    let first := (Face.ofIndex i).reference
    [first, turned first, turned (turned first), turned (turned (turned first))]
  | kind, i =>
    match (locationFaces kind i).map Face.normal with
    | [] => []
    | first :: rest => first :: rest.reverse

/-- Frames repeat themselves after all directions of the kind. -/
theorem frame_mod {n : Nat} (kind : PartKind) {i : Nat} (hi : i < kind.count n) :
    frame kind (i % kind.directions) = frame kind i := by
  cases kind with
  | corner => rw [Nat.mod_eq_of_lt (show i < PartKind.directions .corner from hi)]
  | edge => simp [frame, locationFaces, PartKind.directions]
  | side => simp [frame, PartKind.directions, Face.ofIndex]

/-- So do the twists between locations. -/
theorem twistBetween_mod {n : Nat} (kind : PartKind) (m : Matrix) {i j : Nat}
    (hi : i < kind.count n) (hj : j < kind.count n) :
    twistBetween kind m (i % kind.directions) (j % kind.directions) = twistBetween kind m i j := by
  cases kind with
  | corner =>
    rw [Nat.mod_eq_of_lt (show i < PartKind.directions .corner from hi),
      Nat.mod_eq_of_lt (show j < PartKind.directions .corner from hj)]
  | edge => simp [twistBetween, firstFace, locationFaces, PartKind.directions]
  | side => simp [twistBetween, PartKind.directions, Face.ofIndex]

theorem directions_pos (kind : PartKind) : 0 < kind.directions := by
  cases kind <;> decide

/-- A frame has as many directions as its parts have twists, all different. -/
theorem frame_shape {n : Nat} {kind : PartKind} {i : Nat} (hi : i < kind.count n) :
    (frame kind i).length = kind.modulus ∧ (frame kind i).Nodup := by
  have all : ∀ kind ∈ PartKind.all, ∀ i < kind.directions,
      (frame kind i).length = kind.modulus ∧ (frame kind i).Nodup := by decide +kernel
  rw [← frame_mod kind hi]
  exact all kind (by cases kind <;> decide) _ (Nat.mod_lt i (directions_pos kind))

/-- By how much a frame is turned is settled modulo the number of twists, since no direction comes
twice in it. -/
theorem mod_eq_of_rotate_eq {kind : PartKind} {vs : List Vec} (hlength : vs.length = kind.modulus)
    (hnodup : vs.Nodup) {s t : Nat} (h : vs.rotate s = vs.rotate t) :
    s % kind.modulus = t % kind.modulus := by
  have hne : vs ≠ [] := by
    rintro rfl
    cases kind <;> simp [PartKind.modulus] at hlength
  have hmod := hnodup.rotate_congr hne s t h
  rwa [hlength] at hmod

/-- A rotation carries the frame of a direction to that of the rotated direction, turned by the
twist. -/
theorem map_frame_of_direction (kind : PartKind) {m : Matrix} (hm : m.IsRotation) {i j : Nat}
    (hi : i < kind.directions) (hj : j < kind.directions)
    (h : m.apply (direction kind i) = direction kind j) :
    twistBetween kind m i j < kind.modulus ∧
      (frame kind i).map m.apply = (frame kind j).rotate (twistBetween kind m i j) := by
  have all : ∀ kind ∈ PartKind.all, ∀ m ∈ Matrix.rotations, ∀ i < kind.directions,
      ∀ j < kind.directions, m.apply (direction kind i) = direction kind j →
        twistBetween kind m i j < kind.modulus ∧
          (frame kind i).map m.apply = (frame kind j).rotate (twistBetween kind m i j) := by
    decide +kernel
  exact all kind (by cases kind <;> decide) m hm i hi j hj h

section

variable {n : Nat} {kind : PartKind} {m m' : Matrix} {i j k : Nat}

/-- A rotation carries one location of a kind to another. -/
structure Carries (n : Nat) (kind : PartKind) (m : Matrix) (i j : Nat) : Prop where
  source_lt : i < kind.count n
  target_lt : j < kind.count n
  position : m.apply (position n kind i) = position n kind j

/-- A rotation that carries a location to another one carries its direction to that of the other. -/
theorem Carries.apply_direction (hn : 2 ≤ n) (hm : m.IsRotation) (h : Carries n kind m i j) :
    m.apply (direction kind i) = direction kind j := by
  rw [← (pointsOut_position hn h.source_lt).2, ← (pointsOut_position hn h.target_lt).2,
    ← h.position]
  exact hm.apply_map (outer_neg hn) _

/-- A rotation carries the frame of a location to that of the location it leads to, turned by the
twist between them. -/
theorem Carries.map_frame (hn : 2 ≤ n) (hm : m.IsRotation) (h : Carries n kind m i j) :
    twistBetween kind m i j < kind.modulus ∧
      (frame kind i).map m.apply = (frame kind j).rotate (twistBetween kind m i j) := by
  rw [← frame_mod kind h.source_lt, ← frame_mod kind h.target_lt,
    ← twistBetween_mod kind m h.source_lt h.target_lt]
  refine map_frame_of_direction kind hm (Nat.mod_lt i (directions_pos kind))
    (Nat.mod_lt j (directions_pos kind)) ?_
  rw [direction_mod kind h.source_lt, direction_mod kind h.target_lt, h.apply_direction hn hm]

/-- Where one rotation carries a location to a second one and another rotation from there to a
third one, their product carries the first to the third. -/
theorem Carries.trans (h : Carries n kind m i j) (h' : Carries n kind m' j k) :
    Carries n kind (m'.mul m) i k := by
  refine ⟨h.source_lt, h'.target_lt, ?_⟩
  rw [Matrix.apply_mul, h.position, h'.position]

/-- The twists between locations add up when rotations follow each other. -/
theorem twistBetween_mul (hn : 2 ≤ n) (hm : m.IsRotation) (hm' : m'.IsRotation)
    (h : Carries n kind m i j) (h' : Carries n kind m' j k) :
    twistBetween kind (m'.mul m) i k =
      (twistBetween kind m i j + twistBetween kind m' j k) % kind.modulus := by
  obtain ⟨-, hframe⟩ := h.map_frame hn hm
  obtain ⟨-, hframe'⟩ := h'.map_frame hn hm'
  obtain ⟨hlt, hboth⟩ := (h.trans h').map_frame hn (hm'.mul hm)
  obtain ⟨hlength, hnodup⟩ := frame_shape (n := n) h'.target_lt
  have hmap : (frame kind i).map (m'.mul m).apply = ((frame kind i).map m.apply).map m'.apply := by
    rw [List.map_map]
    exact List.map_congr_left fun v _ => Matrix.apply_mul m' m v
  -- Both ways round, the frame of the last location is turned by as much.
  have hturned : (frame kind k).rotate (twistBetween kind (m'.mul m) i k) =
      (frame kind k).rotate (twistBetween kind m' j k + twistBetween kind m i j) := by
    rw [← hboth, hmap, hframe, List.map_rotate, hframe', List.rotate_rotate]
  have hmod := mod_eq_of_rotate_eq hlength hnodup hturned
  rw [Nat.mod_eq_of_lt hlt] at hmod
  rw [hmod, Nat.add_comm]

/-- Left as it is, a part is not twisted. -/
theorem twistBetween_one (hn : 2 ≤ n) (hi : i < kind.count n) :
    twistBetween kind Matrix.one i i = 0 := by
  have h : Carries n kind Matrix.one i i := ⟨hi, hi, Matrix.apply_one _⟩
  obtain ⟨hlt, -⟩ := h.map_frame hn Matrix.isRotation_one
  have hadd := twistBetween_mul hn Matrix.isRotation_one Matrix.isRotation_one h h
  have hone : Matrix.one.mul Matrix.one = Matrix.one := rfl
  rw [hone] at hadd
  cases kind <;> simp only [PartKind.modulus] at * <;> omega

end

end CubeLang
