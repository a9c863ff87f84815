import CubeLang.Proofs.Script.Order

/-!
# The effect of a script

A script rearranges each state by one and the same arrangement of the parts. This arrangement is
what the script makes of the solved cube, so that a script is known by what it does there: two
scripts that make the same state of the solved cube do the same to every state, however they are
written and in whatever direction they are carried out. A cycle of parts can thus stand for a run of
turns.
-/

set_option autoImplicit false

namespace CubeLang.Script

variable {n : Nat} {s t : Script} {effect c : Cube} {inverse inverse' : Bool}

/-- **A script is known by what it makes of the solved cube.** If two scripts, each in some
direction, make the same state of it, neither of them is refused by any valid state, and both
rearrange each one by that state. -/
theorem apply_eq_of_apply_solved_eq (hn : 2 ≤ n) (hs : s.CyclesBuilt) (ht : t.CyclesBuilt)
    (hrun : s.apply inverse (Cube.solved n) = .ok () effect)
    (hrun' : t.apply inverse' (Cube.solved n) = .ok () effect) (hc : c.Valid n) :
    s.apply inverse c = .ok () (c.andThen effect) ∧
      t.apply inverse' c = .ok () (c.andThen effect) := by
  have hacts := actsAs_of_apply_solved hn hs hrun
  have hacts' := actsAs_of_apply_solved hn ht hrun'
  exact ⟨hacts.2 c hc, hacts'.2 c hc⟩

/-- On a cube with three layers, the commutator of the upper face, seen from a turned right face,
and of the lower face. -/
def cornerCommutator : Script :=
  .commutation {} (.conjugation {} (.move {} ⟨3, 0, 4, 1⟩) (.move {} ⟨3, 1, 4, 1⟩))
    (.move {} ⟨3, 1, 1, -1⟩)

/-- The three corners that the commutator moves round, face by face. -/
def threeCorners : PartCycle where
  kind := some .corner
  sign := 0
  items := [⟨0, 0⟩, ⟨1, 1⟩, ⟨7, 1⟩]

theorem built_threeCorners : threeCorners.Built := by
  have hfirst : PartCycle.addItem .corner none [.faceU, .faceR, .faceF] 0 3 {} =
    .ok () { threeCorners with items := [⟨0, 0⟩] } := rfl
  have hsecond : PartCycle.addItem .corner none [.faceR, .faceD, .faceF] 0 3
    { threeCorners with items := [⟨0, 0⟩] } =
      .ok () { threeCorners with items := [⟨0, 0⟩, ⟨1, 1⟩] } := rfl
  have hthird : PartCycle.addItem .corner none [.faceF, .faceD, .faceL] 0 3
    { threeCorners with items := [⟨0, 0⟩, ⟨1, 1⟩] } = .ok () threeCorners := rfl
  exact .accepted (.accepted (.accepted .empty hfirst) hsecond) hthird

/-- The eight turns of the commutator and the cycle of three corners do the same to the solved cube,
and so to a cube whose right layer was turned. -/
theorem apply_cornerCommutator_eq_threeCorners :
    2 ≤ 3 ∧ cornerCommutator.CyclesBuilt ∧ (permutation {} threeCorners).CyclesBuilt ∧
      ∃ effect, cornerCommutator.apply false (Cube.solved 3) = .ok () effect ∧
        (permutation {} threeCorners).apply false (Cube.solved 3) = .ok () effect ∧
        effect ≠ Cube.solved 3 ∧ (Cube.ofTurn 3 .x 4 1).Valid 3 ∧
        cornerCommutator.apply false (Cube.ofTurn 3 .x 4 1) =
          .ok () ((Cube.ofTurn 3 .x 4 1).andThen effect) ∧
        (permutation {} threeCorners).apply false (Cube.ofTurn 3 .x 4 1) =
          .ok () ((Cube.ofTurn 3 .x 4 1).andThen effect) := by
  have hsame : ∃ effect ∈ cornerCommutator.state? 3,
      (permutation {} threeCorners).state? 3 = some effect ∧ effect ≠ Cube.solved 3 := by
    decide +kernel
  obtain ⟨effect, hstate, hstate', hne⟩ := hsame
  have hbuilt : cornerCommutator.CyclesBuilt := by simp [cornerCommutator, CyclesBuilt]
  have hrun := apply_of_state?_eq_some hstate
  have hrun' := apply_of_state?_eq_some hstate'
  have hvalid := Cube.valid_ofTurn (n := 3) (by decide) .x 4 1
  exact ⟨by decide, hbuilt, built_threeCorners, effect, hrun, hrun', hne, hvalid,
    apply_eq_of_apply_solved_eq (by decide) hbuilt built_threeCorners hrun hrun' hvalid⟩

end CubeLang.Script
