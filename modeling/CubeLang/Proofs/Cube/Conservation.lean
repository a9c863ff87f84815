import CubeLang.Proofs.Cube.Parity
import CubeLang.Proofs.Cube.RigidBody

/-!
# What no turn changes

Turns of the solved cube conserve the sums of the twists off the axes, the joint parity of the
core, and what ties the twists in the middle of the faces to the parity of the corners. Each law
holds of the solved cube and is kept by every turn, since it holds of the turn's own arrangement
and the sums and parities add up.
-/

set_option autoImplicit false

namespace CubeLang

open Turn

variable {n : Nat}

/-! ## Turns of the core -/

/-- The layers of the cube with three layers that are turned with the core. -/
def coreMask (n mask : Nat) : Nat :=
  (mask.testBit 0).toNat + 2 * (mask.testBit ((n - 1) / 2)).toNat + 4 * (mask.testBit (n - 1)).toNat

theorem coreMask_lt (n mask : Nat) : coreMask n mask < 8 := by
  have h : ∀ b : Bool, b.toNat ≤ 1 := by decide
  have h₀ := h (mask.testBit 0)
  have h₁ := h (mask.testBit ((n - 1) / 2))
  have h₂ := h (mask.testBit (n - 1))
  unfold coreMask
  omega

theorem testBit_coreMask (n mask : Nat) :
    (coreMask n mask).testBit 0 = mask.testBit 0 ∧
      (coreMask n mask).testBit 1 = mask.testBit ((n - 1) / 2) ∧
      (coreMask n mask).testBit 2 = mask.testBit (n - 1) := by
  unfold coreMask
  cases mask.testBit 0 <;> cases mask.testBit ((n - 1) / 2) <;> cases mask.testBit (n - 1) <;>
    decide

/-- A part of the core is in an outermost layer or in the middle one, as in the cube with three
layers. -/
theorem testBit_layerAt_core (hodd : n % 2 = 1) (hn : 2 ≤ n) (kind : PartKind) (axis : Axis)
    (mask : Nat) {i : Nat} (hi : i < kind.directions) :
    (coreMask n mask).testBit (layerAt 3 kind axis i) = mask.testBit (layerAt n kind axis i) := by
  have all : ∀ kind ∈ PartKind.all, ∀ i < kind.directions, ∀ axis ∈ Axis.all,
      axis.component (direction kind i) ∈ [-1, 0, 1] := by decide +kernel
  have hcomponent := all kind (by cases kind <;> decide) i hi axis (by cases axis <;> decide)
  have hscale : ∀ k : Int, axis.component ((direction kind i).scale k) =
      k * axis.component (direction kind i) := by
    intro k
    cases axis <;> rfl
  obtain ⟨h₀, h₁, h₂⟩ := testBit_coreMask n mask
  unfold layerAt layerOf
  rw [position_core hn (Or.inr hodd) hi, position_core (by decide) (Or.inr rfl) hi, hscale, hscale]
  simp only [List.mem_cons, List.not_mem_nil, or_false] at hcomponent
  rcases hcomponent with h | h | h <;> rw [h]
  · have hlayer : ((((n : Int) - 1) * -1 + (n - 1)) / 2).toNat = 0 := by omega
    rw [hlayer, ← h₀]
    rfl
  · have hlayer : ((((n : Int) - 1) * 0 + (n - 1)) / 2).toNat = (n - 1) / 2 := by omega
    rw [hlayer, ← h₁]
    rfl
  · have hlayer : ((((n : Int) - 1) * 1 + (n - 1)) / 2).toNat = n - 1 := by omega
    rw [hlayer, ← h₂]
    rfl

/-- A turn does to the core what the turn of its layers does to the cube with three layers. -/
theorem slot_core (hodd : n % 2 = 1) (hn : 2 ≤ n) (kind : PartKind) (axis : Axis) (mask : Nat)
    (angle : Int) {j : Nat} (hj : j < kind.directions) :
    (arrangement n kind axis mask angle).slot j =
      (arrangement 3 kind axis (coreMask n mask) angle).slot j := by
  have hthree : 2 ≤ 3 := by decide
  have hcore : HasCore n kind := Or.inr hodd
  have hcore' : HasCore 3 kind := Or.inr rfl
  have hlt := lt_of_lt_of_le hj (directions_le_count hn hcore)
  have hlt' := lt_of_lt_of_le hj (directions_le_count hthree hcore')
  have hsame := testBit_layerAt_core hodd hn kind axis mask hj
  cases hlayer : mask.testBit (layerAt n kind axis j) with
  | false => rw [slot_of_not_mem hn hlt hlayer, slot_of_not_mem hthree hlt' (hsame.trans hlayer)]
  | true =>
    obtain ⟨i, hij⟩ := exists_source hn hlt axis angle
    have hi : i < kind.directions := by
      have hmem := (closed_coreLocations hn hcore).mem_iff hij
      rw [coreLocations, Finset.mem_range, Finset.mem_range] at hmem
      exact hmem.mpr hj
    have hij' : Carries 3 kind (Matrix.rotation axis angle) i j :=
      (carries_core_iff hthree hcore' hi hj).mpr ((carries_core_iff hn hcore hi hj).mp hij)
    rw [hlayer, layerAt_of_carries hij'] at hsame
    rw [layerAt_of_carries hij] at hlayer
    rw [slot_of_carries hn hij hlayer, slot_of_carries hthree hij' hsame]

/-- A turn brings the core into the order into which it brings that of the cube with three
layers. -/
theorem parity_core (hodd : n % 2 = 1) (hn : 2 ≤ n) (kind : PartKind) (axis : Axis) (mask : Nat)
    (angle : Int) : (arrangement n kind axis mask angle).parity kind.directions =
      (arrangement 3 kind axis (coreMask n mask) angle).parity kind.directions := by
  have hsize : kind.directions ≤ (arrangement n kind axis mask angle).size := by
    rw [size_arrangement hn]
    exact directions_le_count hn (Or.inr hodd)
  have hsize' : kind.directions ≤ (arrangement 3 kind axis (coreMask n mask) angle).size := by
    rw [size_arrangement (by decide)]
    exact directions_le_count (by decide) (Or.inr rfl)
  have hslot : ∀ i : Fin kind.directions, (arrangement n kind axis mask angle).slot i =
      (arrangement 3 kind axis (coreMask n mask) angle).slot i :=
    fun i => slot_core hodd hn kind axis mask angle i.isLt
  unfold Arrangement.parity
  rw [Arrangement.take_parts hsize, Arrangement.take_parts hsize']
  simp only [hslot]

/-- The laws of the core: the first locations hold the first parts, the parities of the three kinds
add up to nothing, and the twists in the middle of the faces to the parity of the corners. -/
structure CoreLaws (c : Cube) : Prop where
  kept : ∀ kind, (c.arrangement kind).KeepsFirst kind.directions
  parities : c.corners.parity 8 + c.edges.parity 12 + c.sides.parity 6 = 0
  centres : c.sides.twistOver 2 (Finset.range 6) = c.corners.parity 8

theorem coreLaws_solved (hn : 2 ≤ n) (hodd : n % 2 = 1) : CoreLaws (Cube.solved n) := by
  have hle : ∀ kind : PartKind, kind.directions ≤ kind.count n :=
    fun _ => directions_le_count hn (Or.inr hodd)
  have hparity : ∀ kind : PartKind,
      (Arrangement.solved (kind.count n)).parity kind.directions = 0 :=
    fun kind => Arrangement.parity_solved (hle kind)
  refine ⟨?_, ?_, ?_⟩
  · intro kind
    rw [Cube.arrangement_solved]
    exact Arrangement.keepsFirst_solved _
  · have hcorners := hparity .corner
    have hedges := hparity .edge
    have hsides := hparity .side
    simp only [PartKind.directions] at hcorners hedges hsides
    simp only [Cube.solved, hcorners, hedges, hsides, add_zero]
  · exact (Arrangement.twistOver_solved 2 _).trans (hparity .corner).symm

/-- The laws are kept when a state that obeys them is rearranged by another one. -/
theorem CoreLaws.andThen {c g : Cube} (hn : 2 ≤ n) (hodd : n % 2 = 1) (hc : c.Valid n)
    (hg : g.Valid n) (h : CoreLaws c) (h' : CoreLaws g) : CoreLaws (c.andThen g) := by
  have hle : ∀ {c : Cube}, c.Valid n → ∀ kind : PartKind,
      kind.directions ≤ (c.arrangement kind).size := by
    intro c hc kind
    rw [(hc.2 kind).size_eq]
    exact directions_le_count hn (Or.inr hodd)
  have hparity : ∀ kind : PartKind, ((c.andThen g).arrangement kind).parity kind.directions =
      (c.arrangement kind).parity kind.directions +
        (g.arrangement kind).parity kind.directions := by
    intro kind
    rw [Cube.arrangement_andThen]
    exact (h.kept kind).parity_andThen (h'.kept kind) (hle hc kind) (hle hg kind)
  have hcorners : (c.andThen g).corners.parity 8 = c.corners.parity 8 + g.corners.parity 8 :=
    hparity .corner
  have hedges : (c.andThen g).edges.parity 12 = c.edges.parity 12 + g.edges.parity 12 :=
    hparity .edge
  have hsides : (c.andThen g).sides.parity 6 = c.sides.parity 6 + g.sides.parity 6 :=
    hparity .side
  refine ⟨?_, ?_, ?_⟩
  · intro kind
    rw [Cube.arrangement_andThen]
    exact (h.kept kind).andThen (h'.kept kind) (hle hg kind)
  · rw [hcorners, hedges, hsides]
    linear_combination h.parities + h'.parities
  · have hcore : HasCore n .side := Or.inr hodd
    have hlt : ∀ i ∈ Finset.range 6, i < PartKind.count n .side :=
      fun i hi => lt_of_lt_of_le (Finset.mem_range.mp hi) (directions_le_count hn hcore)
    have hsources : g.sides.sources (Finset.range 6) = Finset.range 6 := h'.kept .side
    have htwists : (c.andThen g).sides.twistOver 2 (Finset.range 6) =
        c.sides.twistOver 2 (g.sides.sources (Finset.range 6)) +
          g.sides.twistOver 2 (Finset.range 6) :=
      Arrangement.twistOver_andThen ⟨2, rfl⟩ (hg.2 .side) hlt
    rw [htwists, hsources, h.centres, h'.centres, hcorners]

/-- A quarter turn obeys the laws of the core. -/
theorem coreLaws_quarterTurn (hn : 2 ≤ n) (hodd : n % 2 = 1) (axis : Axis) (mask : Nat) :
    CoreLaws (Cube.ofTurn n axis mask 1) := by
  have all : ∀ axis ∈ Axis.all, ∀ mask < 8,
      (arrangement 3 .corner axis mask 1).parity 8 + (arrangement 3 .edge axis mask 1).parity 12 +
          (arrangement 3 .side axis mask 1).parity 6 = 0 ∧
        (arrangement 3 .side axis mask 1).twistOver 2 (Finset.range 6) =
          (arrangement 3 .corner axis mask 1).parity 8 := by decide +kernel
  obtain ⟨hparities, hcentres⟩ :=
    all axis (by cases axis <;> decide) (coreMask n mask) (coreMask_lt n mask)
  have hcorners := parity_core hodd hn .corner axis mask 1
  have hedges := parity_core hodd hn .edge axis mask 1
  have hsides := parity_core hodd hn .side axis mask 1
  simp only [PartKind.directions] at hcorners hedges hsides
  refine ⟨?_, ?_, ?_⟩
  · intro kind
    rw [Cube.arrangement_ofTurn]
    exact (closed_coreLocations hn (Or.inr hodd)).sources_arrangement hn axis mask 1
  · show (arrangement n .corner axis mask 1).parity 8 +
      (arrangement n .edge axis mask 1).parity 12 + (arrangement n .side axis mask 1).parity 6 = 0
    rw [hcorners, hedges, hsides, hparities]
  · show (arrangement n .side axis mask 1).twistOver 2 (Finset.range 6) =
      (arrangement n .corner axis mask 1).parity 8
    rw [hcorners, ← hcentres]
    refine Finset.sum_congr rfl ?_
    intro i hi
    rw [slot_core hodd hn .side axis mask 1 (Finset.mem_range.mp hi)]

/-- So does every turn, being a number of quarter turns. -/
theorem coreLaws_ofTurn (hn : 2 ≤ n) (hodd : n % 2 = 1) (axis : Axis) (mask : Nat) (angle : Int) :
    CoreLaws (Cube.ofTurn n axis mask angle) := by
  have hnat : ∀ k : Nat, CoreLaws (Cube.ofTurn n axis mask k) := by
    intro k
    induction k with
    | zero =>
      rw [Nat.cast_zero, Cube.ofTurn_no_angle hn]
      exact coreLaws_solved hn hodd
    | succ k ih =>
      rw [Nat.cast_succ, ← Cube.ofTurn_andThen_add hn]
      exact ih.andThen hn hodd (Cube.valid_ofTurn hn axis mask k) (Cube.valid_ofTurn hn axis mask 1)
        (coreLaws_quarterTurn hn hodd axis mask)
  rw [← Cube.ofTurn_emod, ← Int.toNat_of_nonneg (Int.emod_nonneg angle (by decide))]
  exact hnat _

/-! ## The laws of a run -/

/-- The laws that a run of turns keeps: the twists off the axes add up to nothing, and the laws of
the core hold where there is one. -/
structure TurnLaws (n : Nat) (c : Cube) : Prop where
  twists : ∀ {kind S}, Closed n kind S → OffAxes n kind S →
    (c.arrangement kind).twistOver kind.modulus S = 0
  core : n % 2 = 1 → CoreLaws c

theorem turnLaws_solved (hn : 2 ≤ n) : TurnLaws n (Cube.solved n) := by
  refine ⟨?_, coreLaws_solved hn⟩
  intro kind S _ _
  rw [Cube.arrangement_solved, Arrangement.twistOver_solved]

theorem TurnLaws.turn (hn : 2 ≤ n) {c : Cube} (hc : c.Valid n) (h : TurnLaws n c)
    (axis : Axis) (mask : Nat) (angle : Int) :
    TurnLaws n (c.andThen (Cube.ofTurn n axis mask angle)) := by
  constructor
  · intro kind S hS hoff
    rw [Cube.arrangement_andThen, Cube.arrangement_ofTurn,
      Arrangement.twistOver_andThen dvd_rfl (valid_arrangement hn kind axis mask angle) hS.lt,
      hS.sources_arrangement hn, h.twists hS hoff, twistOver_arrangement hn hS hoff, add_zero]
  · intro hodd
    exact (h.core hodd).andThen hn hodd hc (Cube.valid_ofTurn hn axis mask angle)
      (coreLaws_ofTurn hn hodd axis mask angle)

/-- What a cube's twists and the order of its parts obey after any turns: the sums of the twists,
and for a cube with a middle layer the order of the parts of its core. -/
structure Conserved (n : Nat) (c : Cube) : Prop where
  corners : c.corners.twists.sum % 3 = 0
  edges : c.edges.twists.sum % 2 = 0
  middleEdges : n % 2 = 1 → (c.edges.twists.take 12).sum % 2 = 0
  sides : n % 2 = 0 → c.sides.twists.sum % 4 = 0
  outerSides : n % 2 = 1 → (c.sides.twists.drop 6).sum % 4 = 0
  core : n % 2 = 1 → (c.edges.parts.take 12).Perm (List.range 12) ∧
    (c.sides.parts.take 6).Perm (List.range 6)
  centres : n % 2 = 1 → (c.sides.twists.take 6).sum % 2 = inversions c.corners.parts % 2
  parities : n % 2 = 1 → (inversions c.corners.parts + inversions (c.edges.parts.take 12) +
    inversions (c.sides.parts.take 6)) % 2 = 0

/-- The twists of a kind without parts on an axis add up to nothing. -/
theorem TurnLaws.sum_twists {c : Cube} (hc : c.Valid n) (h : TurnLaws n c) (kind : PartKind)
    (hoff : OffAxes n kind (Finset.range (kind.count n))) :
    (c.arrangement kind).twists.sum % kind.modulus = 0 := by
  have hsum := h.twists (closed_range n kind) hoff
  rw [← (hc.2 kind).size_eq, ← Arrangement.sum_twists, ZMod.natCast_eq_zero_iff] at hsum
  exact Nat.mod_eq_zero_of_dvd hsum

/-- The laws that a run keeps, read off the lists of twists and of parts. -/
theorem TurnLaws.conserved (hn : 2 ≤ n) {c : Cube} (hc : c.Valid n) (h : TurnLaws n c) :
    Conserved n c := by
  have hlt : ∀ {kind : PartKind}, ∀ i ∈ Finset.range (kind.count n), i < kind.count n :=
    fun i hi => Finset.mem_range.mp hi
  have hle : n % 2 = 1 → ∀ kind : PartKind, kind.directions ≤ (c.arrangement kind).size := by
    intro hodd kind
    rw [(hc.2 kind).size_eq]
    exact directions_le_count hn (Or.inr hodd)
  -- All corners are in the core, so that their parity counts the whole list.
  have hcorners : c.corners.parity 8 = (inversions c.corners.parts : ZMod 2) := by
    have hlength : c.corners.parts.length = 8 :=
      (Arrangement.length_parts _).trans (hc.2 .corner).size_eq
    rw [Arrangement.parity, List.take_of_length_le hlength.le]
  constructor
  case corners => exact h.sum_twists hc .corner (offAxes_of_ne_side hn (by decide) hlt)
  case edges => exact h.sum_twists hc .edge (offAxes_of_ne_side hn (by decide) hlt)
  case sides =>
    intro heven
    exact h.sum_twists hc .side (offAxes_of_even hn heven hlt)
  -- The core and what is outside of it are closed, so that each has a sum of its own.
  case middleEdges =>
    intro hodd
    have hcore : HasCore n .edge := Or.inr hodd
    have hclosed := closed_coreLocations hn hcore
    have hsum := h.twists hclosed (offAxes_of_ne_side hn (by decide) hclosed.lt)
    rw [coreLocations, ← Arrangement.sum_take_twists (hle hodd .edge),
      ZMod.natCast_eq_zero_iff] at hsum
    exact Nat.mod_eq_zero_of_dvd hsum
  case outerSides =>
    intro hodd
    have hcore : HasCore n .side := Or.inr hodd
    have hsum := h.twists (closed_outside hn hcore) (offAxes_outside hn hodd)
    rw [← (hc.2 .side).size_eq, ← Arrangement.sum_drop_twists (hle hodd .side),
      ZMod.natCast_eq_zero_iff] at hsum
    exact Nat.mod_eq_zero_of_dvd hsum
  case core =>
    intro hodd
    have hkept := (h.core hodd).kept
    exact ⟨(hkept .edge).take_parts_perm (hle hodd .edge),
      (hkept .side).take_parts_perm (hle hodd .side)⟩
  case centres =>
    intro hodd
    have hsum : ((c.sides.twists.take 6).sum : ZMod 2) = c.corners.parity 8 :=
      (Arrangement.sum_take_twists (hle hodd .side)).trans (h.core hodd).centres
    rw [hcorners] at hsum
    exact (ZMod.natCast_eq_natCast_iff' _ _ _).mp hsum
  case parities =>
    intro hodd
    have hsum := (h.core hodd).parities
    rw [hcorners, Arrangement.parity, Arrangement.parity, ← Nat.cast_add, ← Nat.cast_add,
      ZMod.natCast_eq_zero_iff] at hsum
    exact Nat.mod_eq_zero_of_dvd hsum

/-- **What turns conserve.** Whatever legal turns are made of the solved cube, the twists of the
corners add up to a multiple of three, those of the edges to an even number, and those of the parts
of the faces, without the ones in the middle of a face, to a multiple of four; in a cube with a
middle layer the edge parts in the middle have an even sum of their own, and the corners, these edge
parts and the parts in the middle of the faces stand in orders whose parities are tied to each other
and to the twists in the middle of the faces. -/
theorem turns_conserve (hn : 2 ≤ n) (ts : List (LegalTurn n)) :
    ∃ c, (Cube.solved n).turns ts = .ok c ∧ Conserved n c := by
  obtain ⟨c, hrun, hc, h⟩ := Cube.turns_keep hn (fun c t hc h => h.turn hn hc t.axis t.mask t.angle)
    ts Cube.valid_solved (turnLaws_solved hn)
  exact ⟨c, hrun, h.conserved hn hc⟩

/-- What the two turns of a cube with three layers leave unsolved obeys the laws. -/
theorem turns_conserve_rightThenUp :
    2 ≤ 3 ∧ ∃ c, (Cube.solved 3).turns rightThenUp = .ok c ∧ c.isSolved = false ∧
      Conserved 3 c := by
  obtain ⟨c, hrun, h⟩ := turns_conserve (by decide) rightThenUp
  have hunsolved : ((Cube.solved 3).turns rightThenUp).toOption.map Cube.isSolved = some false := by
    decide +kernel
  rw [hrun] at hunsolved
  exact ⟨by decide, c, hrun, Option.some.inj hunsolved, h⟩

end CubeLang
