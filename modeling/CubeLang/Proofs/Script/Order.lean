import CubeLang.Proofs.Cube.Order
import CubeLang.Proofs.Script.Action

/-!
# The order of a script

A script that is not refused is a state of the cube, so that carrying it out again and again makes
the powers of this state. The order and the visible order are read off the state after the script
was carried out once.
-/

set_option autoImplicit false

namespace CubeLang.Script

variable {n : Nat} {f : Step Cube Unit} {s : Script} {state c : Cube}

/-- Doing a step again and again rearranges again and again by its state. -/
theorem ActsAs.repeated_apply (h : ActsAs n f state) (k : Nat) (hc : c.Valid n) :
    repeated k f c = .ok () ((fun b => b.andThen state)^[k] c) := by
  induction k generalizing c with
  | zero => rfl
  | succ k ih =>
    unfold repeated
    simp only [h.2 c hc]
    rw [ih (hc.andThen h.1), Function.iterate_succ_apply]

/-- A script that is not refused acts as the state that it makes of the solved cube, in either
direction. -/
theorem actsAs_of_apply_solved {inverse : Bool} (hn : 2 ≤ n) (hs : s.CyclesBuilt)
    (hrun : s.apply inverse (Cube.solved n) = .ok () c) : ActsAs n (s.apply inverse) c := by
  rcases uniform_walk hn false inverse s hs with ⟨state, hstate, hok⟩ | hrefused
  · have hsolved := hok _ Cube.valid_solved
    rw [hstate.solved_andThen] at hsolved
    have heq : EStateM.Result.ok () c = EStateM.Result.ok () state := hrun.symm.trans hsolved
    obtain rfl : c = state := by
      injection heq
    exact ⟨hstate, hok⟩
  · obtain ⟨fault, c', hfail⟩ := hrefused _ Cube.valid_solved
    have heq : EStateM.Result.ok () c = EStateM.Result.error fault c' := hrun.symm.trans hfail
    injection heq

/-- A script carried out on the solved cube again and again makes the powers of its state. -/
theorem repeated_apply_solved (hn : 2 ≤ n) (hs : s.CyclesBuilt)
    (hrun : s.apply false (Cube.solved n) = .ok () c) (k : Nat) :
    c.Valid n ∧ repeated k (s.apply false) (Cube.solved n) = .ok () (c.power k) := by
  have hacts := actsAs_of_apply_solved hn hs hrun
  refine ⟨hacts.1, ?_⟩
  rw [hacts.repeated_apply k Cube.valid_solved, Cube.power, hacts.1.1]

/-- A script that is not refused can be carried out any number of times, and leaves the cube solved
after exactly the multiples of the order of what it makes of the solved cube. -/
theorem isSolved_repeated_iff_order_dvd (hn : 2 ≤ n) (hs : s.CyclesBuilt)
    (hrun : s.apply false (Cube.solved n) = .ok () c) (k : Nat) :
    ∃ c', repeated k (s.apply false) (Cube.solved n) = .ok () c' ∧
      (c'.isSolved = true ↔ c.order ∣ k) := by
  obtain ⟨hc, hrepeated⟩ := repeated_apply_solved hn hs hrun k
  exact ⟨c.power k, hrepeated, (hc.order_dvd_iff k).symm⟩

/-- A side part that stays where it is and gets a twist. -/
def twistedCentre : PartCycle where
  kind := some .side
  sign := 1
  items := [⟨0, 0⟩]

theorem built_twistedCentre : twistedCentre.Built := by
  have hadd : PartCycle.addItem .side (some .permutationMinus) [.faceR] 0 3 {} =
    .ok () twistedCentre := rfl
  exact .accepted .empty hadd

/-- On a cube with three layers, the commutator of a turn of the right and one of the upper face,
and then a twist of the part in the middle of the right face. -/
def commutatorThenTwist : Script :=
  .sequence {} [.commutation {} (.move {} ⟨3, 0, 4, 1⟩) (.move {} ⟨3, 1, 4, 1⟩),
    .permutation {} twistedCentre]

theorem cyclesBuilt_commutatorThenTwist : commutatorThenTwist.CyclesBuilt := by
  simp [commutatorThenTwist, CyclesBuilt, AllCyclesBuilt, built_twistedCentre]

/-- The state that a script makes of the solved cube, unless it is refused. -/
def state? (n : Nat) (s : Script) : Option Cube :=
  match s.apply false (Cube.solved n) with
  | .ok _ c => some c
  | .error _ _ => none

/-- A script that makes a state is not refused. -/
theorem apply_of_state?_eq_some (h : s.state? n = some c) :
    s.apply false (Cube.solved n) = .ok () c := by
  unfold state? at h
  split at h
  · rename_i hrun
    rw [hrun, Option.some.inj h]
  · contradiction

/-- The commutator and the twist are to be done twelve times. -/
theorem isSolved_repeated_commutatorThenTwist :
    2 ≤ 3 ∧ commutatorThenTwist.CyclesBuilt ∧
      ∃ c, commutatorThenTwist.apply false (Cube.solved 3) = .ok () c ∧ c.order = 12 ∧
        ∀ k, ∃ c', repeated k (commutatorThenTwist.apply false) (Cube.solved 3) = .ok () c' ∧
          (c'.isSolved = true ↔ c.order ∣ k) := by
  have horder : (commutatorThenTwist.state? 3).map Cube.order = some 12 := by decide +kernel
  obtain ⟨c, hstate, hc⟩ := Option.map_eq_some_iff.mp horder
  have hrun := apply_of_state?_eq_some hstate
  refine ⟨by decide, cyclesBuilt_commutatorThenTwist, c, hrun, hc, ?_⟩
  exact isSolved_repeated_iff_order_dvd (by decide) cyclesBuilt_commutatorThenTwist hrun

/-- A script that is not refused leaves the cube looking solved after exactly the multiples of the
visible order of what it makes of the solved cube; the order is one of them. -/
theorem looksSolved_repeated_iff_visibleOrder_dvd (hn : 2 ≤ n) (hs : s.CyclesBuilt)
    (hrun : s.apply false (Cube.solved n) = .ok () c) :
    (∀ k, ∃ c', repeated k (s.apply false) (Cube.solved n) = .ok () c' ∧
      (c'.LooksSolved ↔ c.visibleOrder ∣ k)) ∧ c.visibleOrder ∣ c.order := by
  obtain ⟨hc, -⟩ := repeated_apply_solved hn hs hrun 0
  refine ⟨?_, hc.visibleOrder_dvd_order⟩
  intro k
  obtain ⟨-, hrepeated⟩ := repeated_apply_solved hn hs hrun k
  exact ⟨c.power k, hrepeated, (hc.visibleOrder_dvd_iff k).symm⟩

/-- The twist cannot be seen: the cube looks solved after the commutator and the twist were done
six times. -/
theorem looksSolved_repeated_commutatorThenTwist :
    2 ≤ 3 ∧ commutatorThenTwist.CyclesBuilt ∧
      ∃ c, commutatorThenTwist.apply false (Cube.solved 3) = .ok () c ∧ c.visibleOrder = 6 ∧
        (∀ k, ∃ c', repeated k (commutatorThenTwist.apply false) (Cube.solved 3) = .ok () c' ∧
          (c'.LooksSolved ↔ c.visibleOrder ∣ k)) ∧ c.visibleOrder ∣ c.order := by
  have horder : (commutatorThenTwist.state? 3).map Cube.visibleOrder = some 6 := by
    decide +kernel
  obtain ⟨c, hstate, hc⟩ := Option.map_eq_some_iff.mp horder
  have hrun := apply_of_state?_eq_some hstate
  refine ⟨by decide, cyclesBuilt_commutatorThenTwist, c, hrun, hc, ?_⟩
  exact looksSolved_repeated_iff_visibleOrder_dvd (by decide) cyclesBuilt_commutatorThenTwist hrun

end CubeLang.Script
