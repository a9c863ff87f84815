import CubeLang.Proofs.Cube.Turn
import CubeLang.Proofs.LayerMask
import CubeLang.Proofs.Notation.LayerGroups

/-!
# Legal moves

A legal move turns layers that the cube has about one of its three axes, by a quarter or a half
turn, so that no cube with as many layers refuses it. The opposite move is legal then, and so is the
move seen in the reflection, since layers of a cube are layers of it when they are counted from the
other end. Every move of the built-in notation is legal.
-/

set_option autoImplicit false

namespace CubeLang

/-! ## Opposite moves and moves in the reflection -/

namespace Move

@[simp] theorem inverse_inverse (m : Move) : m.inverse.inverse = m := by
  simp [inverse]

/-- In the reflection the opposite of a move is the opposite one. -/
theorem reflected?_inverse (m : Move) : m.inverse.reflected? = m.reflected?.map inverse := by
  simp only [reflected?, inverse, Option.map_map]
  rfl

end Move

/-! ## Moves that no cube refuses -/

/-- A turn as a move. -/
def LegalTurn.move {n : Nat} (t : LegalTurn n) : Move := ⟨n, t.axis.index, t.mask, t.angle⟩

/-- The turn by the opposite angle. -/
def LegalTurn.inverse {n : Nat} (t : LegalTurn n) : LegalTurn n where
  axis := t.axis
  mask := t.mask
  mask_lt := t.mask_lt
  angle := -t.angle
  angle_mem := by
    have hangle := t.angle_mem
    simp only [List.mem_cons, List.not_mem_nil, or_false] at hangle ⊢
    omega

/-- The turn of the layers counted from the other end. -/
def LegalTurn.reflected {n : Nat} (hn : 0 < n) (t : LegalTurn n) : LegalTurn n :=
  { t with
    mask := LayerMask.reverse t.mask n
    mask_lt := LayerMask.reverse_lt hn t.mask_lt }

/-- The reflection of a turn is a turn. -/
theorem LegalTurn.reflected?_move {n : Nat} (hn : 0 < n) (t : LegalTurn n) :
    t.move.reflected? = some (t.reflected hn).move := by
  simp only [Move.reflected?, LegalTurn.move, Move.reversedMask?_natCast, Option.map_some,
    LegalTurn.reflected]

namespace Move

variable {n : Nat} {m : Move}

/-- Whether a move is a turn that no cube with `n` layers refuses. -/
def Legal (n : Nat) (m : Move) : Prop := ∃ t : LegalTurn n, t.move = m

/-- The numbers of a legal move are those of a turn. -/
theorem legal_of_numbers (axis : Axis) {mask : Nat} (hmask : mask < 2 ^ n) {angle : Int}
    (hangle : angle ∈ [-2, -1, 1, 2]) : Legal n ⟨n, axis.index, mask, angle⟩ :=
  ⟨⟨axis, mask, hmask, angle, hangle⟩, rfl⟩

theorem Legal.inverse (h : m.Legal n) : m.inverse.Legal n := by
  obtain ⟨t, rfl⟩ := h
  exact ⟨t.inverse, rfl⟩

theorem Legal.reflected (hn : 0 < n) (h : m.Legal n) : ∃ m', m.reflected? = some m' ∧ m'.Legal n := by
  obtain ⟨t, rfl⟩ := h
  exact ⟨_, t.reflected?_move hn, t.reflected hn, rfl⟩

/-- A legal move has no fault. -/
theorem Legal.fault?_eq_none (h : m.Legal n) : m.fault? = none := by
  obtain ⟨t, rfl⟩ := h
  have haxis : t.axis.index ≤ 2 := by cases t.axis <;> decide
  have hmask : LayerMask.isOf t.mask n = true := by
    simp [LayerMask.isOf, Nat.one_shiftLeft, t.mask_lt]
  unfold fault? LegalTurn.move
  dsimp only
  rw [if_neg (by simp; omega), if_neg (by omega), if_neg (by omega), Int.toNat_natCast, hmask]
  rfl

/-- A legal move turns a cube into one that has all its parts. -/
theorem Legal.exists_turn (hn : 2 ≤ n) (h : m.Legal n) {c : Cube} (hc : c.Valid n) :
    ∃ c', c.turn m.axis m.layerMask m.angle = .ok c' ∧ c'.Valid n := by
  obtain ⟨t, rfl⟩ := h
  exact ⟨_, Cube.turn_legal hn hc t, hc.andThen (Cube.valid_ofTurn hn t.axis t.mask t.angle)⟩

end Move

/-! ## The moves of the built-in notation -/

namespace Notation

open LayerMask

variable {n : Nat} {g : LayerGroup}

theorem middleBlock_lt {width : Nat} (h : width ≤ n) : middleBlock n width < 2 ^ n := by
  refine block_lt ?_
  split <;> omega

/-- The layers of every group are layers of the cube. -/
theorem mask_lt_of_mem_layerGroups (hn : 2 ≤ n) (h : g ∈ layerGroups n) : g.mask < 2 ^ n := by
  cases inFamily_of_mem h with
  | face => exact single_lt (by omega)
  | cube => exact block_lt (by omega)
  | mid hk hg => exact (of_mem_numbered hg).1 ▸ middleBlock_lt (by omega)
  | wide => exact block_lt (by omega)
  | tier hk hg => exact (of_mem_numbered hg).1 ▸ block_lt (by omega)
  | layer hk hg => exact (of_mem_numbered hg).1 ▸ single_lt (by omega)
  | layerRange hr => exact block_lt (by omega)
  | verge hk hg => exact (of_mem_numbered hg).1 ▸ block_lt (by omega)
  | slice hk hg => exact (of_mem_numbered hg).1 ▸ complement_lt (block_lt (by omega))
  | sliceRange hr => exact complement_lt (block_lt (by omega))

/-- Every move of the built-in notation is legal. -/
theorem legal_of_mem_defaultMoves (hn : 2 ≤ n) {e : String × Move} (h : e ∈ defaultMoves n) :
    e.2.Legal n := by
  obtain ⟨g, hg, m, hm, face, hface, rfl⟩ := mem_defaultMoves_iff.mp h
  have hnear := mask_lt_of_mem_layerGroups hn hg
  have hfar := reverse_lt (by omega) hnear
  have hangles : ∀ m ∈ turnMarks, m.1 ∈ [(-2 : Int), -1, 1, 2] ∧ -m.1 ∈ [(-2 : Int), -1, 1, 2] := by
    decide
  obtain ⟨hto, hfro⟩ := hangles m hm
  simp only [faceLetters, List.mem_cons, List.not_mem_nil, or_false] at hface
  rcases hface with rfl | rfl | rfl | rfl | rfl | rfl
  · exact Move.legal_of_numbers .x hfar hto
  · exact Move.legal_of_numbers .y hfar hto
  · exact Move.legal_of_numbers .z hfar hto
  · exact Move.legal_of_numbers .x hnear hfro
  · exact Move.legal_of_numbers .y hnear hfro
  · exact Move.legal_of_numbers .z hnear hfro

end Notation

end CubeLang
