import CubeLang.Proofs.Cube.States
import CubeLang.Proofs.Script.Inverse

/-!
# The order of conjugates

A script that is not refused by the solved cube is an element of the monoid of states that has an
inverse, and this inverse is the script carried out inversely. A script put into a conjugation or a
rotation is a conjugate of it. So inverting a script or putting it between another script and its
undoing changes the cycles of the parts, but not the order.
-/

set_option autoImplicit false

namespace CubeLang.Script

variable {n : Nat} {f : Step Cube Unit} {a s : Script} {c₁ c : Cube}

/-- What a step makes of the solved cube is the state that it acts as. -/
theorem ActsAs.apply_solved {state : Cube} (hf : ActsAs n f state) :
    f (Cube.solved n) = .ok () state := by
  rw [hf.2 _ Cube.valid_solved, hf.1.solved_andThen]

/-- A script that is not refused acts as an element with an inverse, and inversely as the inverse. -/
theorem exists_unit (hn : 2 ≤ n) (hs : s.CyclesBuilt)
    (hrun : s.apply false (Cube.solved n) = .ok () c) :
    ∃ u : (Cube.State n)ˣ, u.val.cube = c ∧ ActsAs n (s.walk perform false false) u.val.cube ∧
      ActsAs n (s.walk perform false true) u⁻¹.val.cube := by
  have hacts := actsAs_of_apply_solved hn hs hrun
  obtain ⟨hc, hback⟩ := undoneBy_walk hn false false s hs _ _ Cube.valid_solved hrun
  rcases uniform_walk hn false true s hs with ⟨d, hd⟩ | hrefused
  · have hright : c.andThen d = Cube.solved n := by
      have hsame := (hd.2 c hc).symm.trans hback
      injection hsame
    have hleft : d.andThen c = Cube.solved n := by
      have hforth := (undoneBy_walk hn false true s hs _ _ Cube.valid_solved hd.apply_solved).2
      have hsame := (hacts.2 d hd.1).symm.trans hforth
      injection hsame
    exact ⟨⟨⟨c, hc⟩, ⟨d, hd.1⟩, Cube.State.ext hright, Cube.State.ext hleft⟩, rfl, hacts, hd⟩
  · obtain ⟨fault, c', hfail⟩ := hrefused c hc
    have hsame := hback.symm.trans hfail
    injection hsame

/-- **Inverses and conjugates have the order of the script.** If neither of two scripts is refused by
the solved cube, the inverse of the one is not, nor is its conjugation or its rotation by the other one,
and the states that they make of the solved cube have the same order as that of the script. -/
theorem order_of_conjugates (hn : 2 ≤ n) (ha : a.CyclesBuilt) (hs : s.CyclesBuilt)
    (hrun₁ : a.apply false (Cube.solved n) = .ok () c₁)
    (hrun : s.apply false (Cube.solved n) = .ok () c) (span : Span) :
    ∃ inverted conjugated rotated,
      (inversion span s).apply false (Cube.solved n) = .ok () inverted ∧
        (conjugation span a s).apply false (Cube.solved n) = .ok () conjugated ∧
        (rotation span a s).apply false (Cube.solved n) = .ok () rotated ∧
        inverted.order = c.order ∧ conjugated.order = c.order ∧ rotated.order = c.order := by
  obtain ⟨x, -, hthere, hback⟩ := exists_unit hn ha hrun₁
  obtain ⟨g, rfl, hoperand, hinverse⟩ := exists_unit hn hs hrun
  have hinverted : ActsAs n ((inversion span s).apply false) g⁻¹.val.cube := by
    unfold apply walk
    exact hinverse
  have hconjugated : ActsAs n ((conjugation span a s).apply false) (x * (g * x⁻¹)).val.cube := by
    unfold apply walk
    exact hthere.andThen (hoperand.andThen hback)
  have hrotated : ActsAs n ((rotation span a s).apply false) (x⁻¹ * (g * x)).val.cube := by
    unfold apply walk
    exact hback.andThen (hoperand.andThen hthere)
  have hturned : (x⁻¹ * (g * x)).val.cube.order = g.val.cube.order := by
    rw [← Cube.State.order_conjugate x⁻¹ g, inv_inv]
  exact ⟨_, _, _, hinverted.apply_solved, hconjugated.apply_solved, hrotated.apply_solved,
    Cube.State.order_inv g, Cube.State.order_conjugate x g, hturned⟩

/-- Both layers in front by a quarter turn, and then a twist of the part in the middle of the right
face. -/
def frontThenTwist : Script :=
  .sequence {} [.move {} ⟨3, 2, 6, 1⟩, .permutation {} twistedCentre]

/-- The commutator and the twist, undone or put between these and their undoing, are still to be done
twelve times. -/
theorem order_of_conjugates_commutatorThenTwist :
    2 ≤ 3 ∧ frontThenTwist.CyclesBuilt ∧ commutatorThenTwist.CyclesBuilt ∧
      ∃ c₁ c, frontThenTwist.apply false (Cube.solved 3) = .ok () c₁ ∧
        commutatorThenTwist.apply false (Cube.solved 3) = .ok () c ∧ c.order = 12 ∧
        ∃ inverted conjugated rotated,
          (inversion {} commutatorThenTwist).apply false (Cube.solved 3) = .ok () inverted ∧
            (conjugation {} frontThenTwist commutatorThenTwist).apply false (Cube.solved 3) =
              .ok () conjugated ∧
            (rotation {} frontThenTwist commutatorThenTwist).apply false (Cube.solved 3) =
              .ok () rotated ∧
            inverted.order = c.order ∧ conjugated.order = c.order ∧ rotated.order = c.order := by
  have hbuilt : frontThenTwist.CyclesBuilt := by
    simp [frontThenTwist, CyclesBuilt, AllCyclesBuilt, built_twistedCentre]
  have hsome : (frontThenTwist.state? 3).isSome = true := by decide +kernel
  have horder : (commutatorThenTwist.state? 3).map Cube.order = some 12 := by decide +kernel
  obtain ⟨c₁, hstate₁⟩ := Option.isSome_iff_exists.mp hsome
  obtain ⟨c, hstate, hc⟩ := Option.map_eq_some_iff.mp horder
  have hrun₁ := apply_of_state?_eq_some hstate₁
  have hrun := apply_of_state?_eq_some hstate
  exact ⟨by decide, hbuilt, cyclesBuilt_commutatorThenTwist, c₁, c, hrun₁, hrun, hc,
    order_of_conjugates (by decide) hbuilt cyclesBuilt_commutatorThenTwist hrun₁ hrun {}⟩

end CubeLang.Script
