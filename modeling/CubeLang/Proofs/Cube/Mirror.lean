import CubeLang.Proofs.Cube.Order
import CubeLang.Proofs.Geometry.Opposite
import CubeLang.Proofs.Move

/-!
# Mirrored states

Two states are mirrored if each is what the point reflection makes of the other: the parts on one
side of the one are the opposite parts on the other side of the other one, twisted the other way
round. The solved cube is its own reflection, a turn of the reversed layers is the reflection of the
turn, and what is done one after the other to mirrored states leads to mirrored states. Orders do
not tell mirrored states apart.
-/

set_option autoImplicit false

namespace CubeLang

open Turn

/-- Two slots hold opposite parts, twisted the other way round. -/
structure Slot.Opposite (n : Nat) (kind : PartKind) (s s' : Slot) : Prop where
  part : s'.part = oppositeLocation n kind s.part
  twist : (s.twist + s'.twist) % kind.modulus = 0

namespace Arrangement

/-- Each of two valid arrangements of the parts of a kind is what the point reflection makes of the
other one. -/
structure Mirrored (n : Nat) (kind : PartKind) (a b : Arrangement) : Prop where
  valid : a.Valid kind (kind.count n)
  valid_image : b.Valid kind (kind.count n)
  slot : ∀ i < kind.count n, (a.slot i).Opposite n kind (b.slot (oppositeLocation n kind i))

variable {n : Nat} {kind : PartKind} {a b c d : Arrangement}

theorem mirrored_solved (n : Nat) (kind : PartKind) :
    Mirrored n kind (solved (kind.count n)) (solved (kind.count n)) := by
  refine ⟨valid_solved, valid_solved, ?_⟩
  intro i _
  rw [slot_solved, slot_solved]
  exact ⟨rfl, Nat.zero_mod _⟩

namespace Mirrored

/-- What is at a location is opposite to what is at the opposite location in the other
arrangement. -/
theorem slot_opposite (hn : 2 ≤ n) (h : Mirrored n kind a b) {i : Nat} (hi : i < kind.count n) :
    (a.slot (oppositeLocation n kind i)).Opposite n kind (b.slot i) := by
  have hslot := h.slot _ (oppositeLocation_lt hn hi)
  rwa [oppositeLocation_oppositeLocation hn hi] at hslot

/-- Opposite corners are twisted by opposite amounts. -/
theorem twist_corner (hn : 2 ≤ n) (h : Mirrored n .corner a b) {i : Nat}
    (hi : i < PartKind.corner.count n) :
    (b.slot (oppositeLocation n .corner i)).twist = (3 - (a.slot i).twist) % 3 := by
  have htwist := (h.slot i hi).twist
  have hhere := h.valid.twist_lt hi
  have hthere := h.valid_image.twist_lt (oppositeLocation_lt hn hi)
  simp only [PartKind.modulus] at htwist hhere hthere
  omega

/-- Opposite edge parts are both flipped or both not. -/
theorem twist_edge (hn : 2 ≤ n) (h : Mirrored n .edge a b) {i : Nat}
    (hi : i < PartKind.edge.count n) :
    (b.slot (oppositeLocation n .edge i)).twist = (a.slot i).twist := by
  have htwist := (h.slot i hi).twist
  have hhere := h.valid.twist_lt hi
  have hthere := h.valid_image.twist_lt (oppositeLocation_lt hn hi)
  simp only [PartKind.modulus] at htwist hhere hthere
  omega

theorem symm (hn : 2 ≤ n) (h : Mirrored n kind a b) : Mirrored n kind b a := by
  refine ⟨h.valid_image, h.valid, ?_⟩
  intro i hi
  obtain ⟨hpart, htwist⟩ := h.slot_opposite hn hi
  have hlt := h.valid.part_lt (oppositeLocation_lt hn hi)
  refine ⟨?_, by rwa [Nat.add_comm]⟩
  rw [hpart, oppositeLocation_oppositeLocation hn hlt]

/-- Mirrored arrangements rearranged by mirrored ones are mirrored. -/
theorem andThen (hn : 2 ≤ n) (h : Mirrored n kind a b) (h' : Mirrored n kind c d) :
    Mirrored n kind (a.andThen kind.modulus c) (b.andThen kind.modulus d) := by
  refine ⟨h.valid.andThen h'.valid, h.valid_image.andThen h'.valid_image, ?_⟩
  intro i hi
  have hsize : i < c.size := h'.valid.size_eq ▸ hi
  have hsize' : oppositeLocation n kind i < d.size :=
    h'.valid_image.size_eq ▸ oppositeLocation_lt hn hi
  obtain ⟨hpart', htwist'⟩ := h'.slot i hi
  obtain ⟨hpart, htwist⟩ := h.slot _ (h'.valid.part_lt hi)
  rw [slot_andThen hsize, slot_andThen hsize', hpart']
  refine ⟨hpart, ?_⟩
  rw [← Nat.add_mod, Nat.add_add_add_comm, Nat.add_mod, htwist, htwist', Nat.add_zero,
    Nat.zero_mod]

/-- Mirrored arrangements done again and again lead to mirrored ones. -/
theorem power (hn : 2 ≤ n) (h : Mirrored n kind a b) (k : Nat) :
    Mirrored n kind (a.power kind k) (b.power kind k) := by
  induction k with
  | zero =>
    have hzero : ∀ {e : Arrangement}, e.Valid kind (kind.count n) →
        e.power kind 0 = solved (kind.count n) := fun he => congrArg solved he.size_eq
    rw [hzero h.valid, hzero h.valid_image]
    exact mirrored_solved n kind
  | succ k ih =>
    rw [power_succ, power_succ]
    exact ih.andThen hn h

theorem eq_solved (hn : 2 ≤ n) (h : Mirrored n kind a b) (ha : a = solved (kind.count n)) :
    b = solved (kind.count n) := by
  refine ext_slot (by rw [h.valid_image.size_eq, size_solved]) ?_
  intro i hi
  have hi : i < kind.count n := h.valid_image.size_eq ▸ hi
  obtain ⟨hpart, htwist⟩ := h.slot_opposite hn hi
  rw [ha, slot_solved] at hpart htwist
  rw [oppositeLocation_oppositeLocation hn hi] at hpart
  rw [Nat.zero_add, Nat.mod_eq_of_lt (h.valid_image.twist_lt hi)] at htwist
  have hslot : b.slot i = ⟨(b.slot i).part, (b.slot i).twist⟩ := rfl
  rw [slot_solved, hslot, hpart, htwist]

theorem eq_solved_iff (hn : 2 ≤ n) (h : Mirrored n kind a b) :
    a = solved (kind.count n) ↔ b = solved (kind.count n) :=
  ⟨h.eq_solved hn, (h.symm hn).eq_solved hn⟩

/-- Mirrored arrangements have the same order. -/
theorem order_eq (hn : 2 ≤ n) (h : Mirrored n kind a b) :
    a.order kind.modulus = b.order kind.modulus := by
  rw [← Nat.dvd_right_iff_eq]
  intro k
  rw [h.valid.order_dvd_iff, h.valid_image.order_dvd_iff, (h.power hn k).eq_solved_iff hn]

/-- A side location shows a part of its own face if the opposite one does in the reflection. -/
theorem shows_own_face (hn : 2 ≤ n) (h : Mirrored n .side a b)
    (ha : ∀ i < PartKind.side.count n, (a.slot i).part % 6 = i % 6) :
    ∀ i < PartKind.side.count n, (b.slot i).part % 6 = i % 6 := by
  intro i hi
  have hopposite := oppositeLocation_lt hn hi
  have hsource := oppositeLocation_side_mod hn (h.valid.part_lt hopposite)
  have htarget := oppositeLocation_side_mod hn hi
  have hown := ha _ hopposite
  rw [(h.slot_opposite hn hi).part]
  omega

/-- Mirrored arrangements of side parts have the same visible order. -/
theorem visibleOrder_eq (hn : 2 ≤ n) (h : Mirrored n .side a b) :
    a.visibleOrder = b.visibleOrder := by
  rw [← Nat.dvd_right_iff_eq]
  intro k
  rw [h.valid.visibleOrder_dvd_iff, h.valid_image.visibleOrder_dvd_iff]
  exact ⟨(h.power hn k).shows_own_face hn, ((h.power hn k).symm hn).shows_own_face hn⟩

end Mirrored

end Arrangement

/-! ## Turns of reversed layers -/

/-- A turn of the layers counted from the other end is the reflection of the turn. -/
theorem Turn.mirrored_arrangement {n mask : Nat} (hn : 2 ≤ n) (hmask : mask < 2 ^ n)
    (kind : PartKind) (axis : Axis) (angle : Int) :
    Arrangement.Mirrored n kind (arrangement n kind axis mask angle)
      (arrangement n kind axis (LayerMask.reverse mask n) angle) := by
  have hlayer : ∀ i < kind.count n,
      (LayerMask.reverse mask n).testBit (layerAt n kind axis (oppositeLocation n kind i)) =
        mask.testBit (layerAt n kind axis i) := by
    intro i hi
    have hlt : layerAt n kind axis i < n := layerAt_lt hn hi
    have htwice : n - 1 - (n - 1 - layerAt n kind axis i) = layerAt n kind axis i := by omega
    rw [LayerMask.testBit_reverse hmask (layerAt_lt hn (oppositeLocation_lt hn hi)),
      layerAt_oppositeLocation hn hi, htwice]
  refine ⟨valid_arrangement hn kind axis mask angle, valid_arrangement hn kind axis _ angle, ?_⟩
  intro i hi
  have hsame := hlayer i hi
  cases hbit : mask.testBit (layerAt n kind axis i) with
  | false =>
    rw [hbit] at hsame
    rw [slot_of_not_mem hn hi hbit, slot_of_not_mem hn (oppositeLocation_lt hn hi) hsame]
    exact ⟨rfl, Nat.zero_mod _⟩
  | true =>
    rw [hbit] at hsame
    obtain ⟨j, hji⟩ := exists_source hn hi axis angle
    have hrotation := Matrix.isRotation_rotation axis angle
    have hopposite := hji.opposite hn hrotation
    rw [layerAt_of_carries hji] at hbit
    rw [layerAt_of_carries hopposite] at hsame
    rw [slot_of_carries hn hji hbit, slot_of_carries hn hopposite hsame]
    exact ⟨rfl, twistBetween_opposite hn hrotation hji⟩

/-! ## Cubes -/

namespace Cube

/-- Each of two valid states of a cube is what the point reflection makes of the other one. -/
structure Mirrored (n : Nat) (c c' : Cube) : Prop where
  valid : c.Valid n
  valid_image : c'.Valid n
  arrangement : ∀ kind, (c.arrangement kind).Mirrored n kind (c'.arrangement kind)

variable {n : Nat} {c c' g g' : Cube}

theorem mirrored_solved (n : Nat) : Mirrored n (solved n) (solved n) where
  valid := valid_solved
  valid_image := valid_solved
  arrangement := by
    intro kind
    rw [arrangement_solved]
    exact Arrangement.mirrored_solved n kind

/-- A legal turn and its reflection make mirrored states. -/
theorem mirrored_ofTurn (hn : 2 ≤ n) (t : LegalTurn n) :
    Mirrored n (ofTurn n t.axis t.mask t.angle)
      (ofTurn n t.axis (LayerMask.reverse t.mask n) t.angle) where
  valid := valid_ofTurn hn t.axis t.mask t.angle
  valid_image := valid_ofTurn hn t.axis _ t.angle
  arrangement := by
    intro kind
    rw [arrangement_ofTurn, arrangement_ofTurn]
    exact Turn.mirrored_arrangement hn t.mask_lt kind t.axis t.angle

namespace Mirrored

theorem symm (hn : 2 ≤ n) (h : Mirrored n c c') : Mirrored n c' c :=
  ⟨h.valid_image, h.valid, fun kind => (h.arrangement kind).symm hn⟩

theorem andThen (hn : 2 ≤ n) (h : Mirrored n c c') (h' : Mirrored n g g') :
    Mirrored n (c.andThen g) (c'.andThen g') where
  valid := h.valid.andThen h'.valid
  valid_image := h.valid_image.andThen h'.valid_image
  arrangement := by
    intro kind
    rw [arrangement_andThen, arrangement_andThen]
    exact (h.arrangement kind).andThen hn (h'.arrangement kind)

/-- Mirrored states have the same order. -/
theorem order_eq (hn : 2 ≤ n) (h : Mirrored n c c') : c.order = c'.order := by
  have hcorner : c.corners.order 3 = c'.corners.order 3 := (h.arrangement .corner).order_eq hn
  have hedge : c.edges.order 2 = c'.edges.order 2 := (h.arrangement .edge).order_eq hn
  have hside : c.sides.order 4 = c'.sides.order 4 := (h.arrangement .side).order_eq hn
  rw [order, order, hcorner, hedge, hside]

/-- Mirrored states have the same visible order. -/
theorem visibleOrder_eq (hn : 2 ≤ n) (h : Mirrored n c c') : c.visibleOrder = c'.visibleOrder := by
  have hcorner : c.corners.order 3 = c'.corners.order 3 := (h.arrangement .corner).order_eq hn
  have hedge : c.edges.order 2 = c'.edges.order 2 := (h.arrangement .edge).order_eq hn
  have hside : c.sides.visibleOrder = c'.sides.visibleOrder :=
    (h.arrangement .side).visibleOrder_eq hn
  rw [visibleOrder, visibleOrder, hcorner, hedge, hside]

end Mirrored

end Cube

end CubeLang
