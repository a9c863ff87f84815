import CubeLang.Proofs.Cube.Conjugation

/-!
# Turns about one axis

What turns about one axis make of a cube can be said layer by layer. Each layer is turned by the sum
of the angles of those turns that turn it, whatever other layers they turn along with it and in
whatever order they come. So a run of such turns rearranges the cube by a state that depends on the
sums alone, and on them modulo four.
-/

set_option autoImplicit false

namespace CubeLang

namespace Turn

variable {n : Nat} {kind : PartKind} {axis : Axis} {mask : Nat} {angle : Int} {i : Nat}

/-! ## One turn, layer by layer -/

/-- A location takes its part from a location of the same layer. -/
theorem layerAt_slot (hn : 2 ≤ n) (hi : i < kind.count n) :
    layerAt n kind axis ((arrangement n kind axis mask angle).slot i).part =
      layerAt n kind axis i := by
  cases hlayer : mask.testBit (layerAt n kind axis i) with
  | false => rw [slot_of_not_mem hn hi hlayer]
  | true =>
    obtain ⟨j, hji⟩ := exists_source hn hi axis angle
    have hsame := layerAt_of_carries hji
    rw [slot_of_carries hn hji (hsame ▸ hlayer), hsame]

/-- A turn does to a location what a turn of all layers does to it, by the angle by which the layer of
the location is turned. -/
theorem slot_eq_of_all (hn : 2 ≤ n) (hi : i < kind.count n) :
    (arrangement n kind axis mask angle).slot i =
      (arrangement n kind axis (2 ^ n - 1)
        (if mask.testBit (layerAt n kind axis i) then angle else 0)).slot i := by
  cases hlayer : mask.testBit (layerAt n kind axis i) with
  | false =>
    rw [slot_of_not_mem hn hi hlayer, if_neg (by decide), arrangement_no_angle hn,
      Arrangement.slot_solved]
  | true =>
    obtain ⟨j, hji⟩ := exists_source hn hi axis angle
    have hsame := layerAt_of_carries hji
    rw [slot_of_carries hn hji (hsame ▸ hlayer), if_pos rfl,
      slot_of_carries hn hji (testBit_layerAt_of_all hn hji.source_lt)]

/-! ## Every layer by an angle of its own -/

/-- The arrangement that comes about if every layer is turned by an angle of its own. -/
def byLayer (n : Nat) (kind : PartKind) (axis : Axis) (angles : Nat → Int) : Arrangement :=
  ((List.range (kind.count n)).map fun i =>
    (arrangement n kind axis (2 ^ n - 1) (angles (layerAt n kind axis i))).slot i).toArray

variable {angles angles' : Nat → Int}

@[simp] theorem size_byLayer : (byLayer n kind axis angles).size = kind.count n := by
  simp [byLayer]

theorem slot_byLayer (hi : i < kind.count n) :
    (byLayer n kind axis angles).slot i =
      (arrangement n kind axis (2 ^ n - 1) (angles (layerAt n kind axis i))).slot i := by
  have hlt : i < (byLayer n kind axis angles).size := by rwa [size_byLayer]
  rw [Arrangement.slot_eq_getElem hlt]
  simp [byLayer]

/-- Every part comes to a location of its layer, so that the arrangement is valid. -/
theorem valid_byLayer (hn : 2 ≤ n) (kind : PartKind) (axis : Axis) (angles : Nat → Int) :
    (byLayer n kind axis angles).Valid kind (kind.count n) := by
  rw [Arrangement.valid_iff]
  refine ⟨size_byLayer, ?_, ?_⟩
  · intro p hp
    obtain ⟨j, hpj⟩ := exists_target hn hp axis (angles (layerAt n kind axis p))
    refine ⟨j, hpj.target_lt, ?_⟩
    rw [slot_byLayer hpj.target_lt, layerAt_of_carries hpj,
      slot_of_carries hn hpj (testBit_layerAt_of_all hn hp)]
  · intro i hi
    rw [slot_byLayer hi]
    exact (valid_arrangement hn kind axis _ _).twist_lt hi

/-- The angles count modulo four, and those of layers that are not there do not count. -/
theorem byLayer_congr (hn : 2 ≤ n) (h : ∀ layer < n, angles layer % 4 = angles' layer % 4) :
    byLayer n kind axis angles = byLayer n kind axis angles' := by
  refine Arrangement.ext_slot (by simp) ?_
  intro i hi
  rw [size_byLayer] at hi
  rw [slot_byLayer hi, slot_byLayer hi, ← arrangement_emod, h _ (layerAt_lt hn hi),
    arrangement_emod]

/-- If no layer is turned, every part stays in its place. -/
theorem byLayer_zero (hn : 2 ≤ n) :
    byLayer n kind axis (fun _ => 0) = Arrangement.solved (kind.count n) := by
  refine Arrangement.ext_slot (by simp) ?_
  intro i hi
  rw [size_byLayer] at hi
  rw [slot_byLayer hi, arrangement_no_angle hn]

/-- A turn before the layers are turned adds its angle to those of the layers that it turns. -/
theorem arrangement_andThen_byLayer (hn : 2 ≤ n) (kind : PartKind) (axis : Axis) (mask : Nat)
    (angle : Int) (angles : Nat → Int) :
    (arrangement n kind axis mask angle).andThen kind.modulus (byLayer n kind axis angles) =
      byLayer n kind axis fun layer => (if mask.testBit layer then angle else 0) + angles layer := by
  refine Arrangement.ext_slot (by simp) ?_
  intro i hi
  have hlt : i < kind.count n := by rwa [Arrangement.size_andThen, size_byLayer] at hi
  have hall : ∀ angle, i < (arrangement n kind axis (2 ^ n - 1) angle).size := fun angle => by
    rwa [size_arrangement hn]
  have hsource := (valid_arrangement hn kind axis (2 ^ n - 1)
    (angles (layerAt n kind axis i))).part_lt hlt
  rw [Arrangement.size_andThen] at hi
  rw [Arrangement.slot_andThen hi, slot_byLayer hlt, slot_byLayer hlt, slot_eq_of_all hn hsource,
    layerAt_slot hn hlt, ← arrangement_andThen_add hn, Arrangement.slot_andThen (hall _)]

end Turn

open Turn

/-! ## Runs of turns about one axis -/

/-- The angles of the turns that turn a layer, all together. -/
def angleSum {n : Nat} (ts : List (LegalTurn n)) (layer : Nat) : Int :=
  ((ts.filter fun t => t.mask.testBit layer).map LegalTurn.angle).sum

theorem angleSum_cons {n : Nat} (t : LegalTurn n) (ts : List (LegalTurn n)) :
    angleSum (t :: ts) =
      fun layer => (if t.mask.testBit layer then t.angle else 0) + angleSum ts layer := by
  funext layer
  cases hlayer : t.mask.testBit layer <;> simp [angleSum, hlayer]

namespace Cube

variable {n : Nat} {c : Cube} {axis : Axis}

/-- The state that comes about if every layer of the solved cube is turned by an angle of its own. -/
def ofLayers (n : Nat) (axis : Axis) (angles : Nat → Int) : Cube where
  layerCount := n
  corners := byLayer n .corner axis angles
  edges := byLayer n .edge axis angles
  sides := byLayer n .side axis angles

@[simp] theorem arrangement_ofLayers (angles : Nat → Int) (kind : PartKind) :
    (ofLayers n axis angles).arrangement kind = byLayer n kind axis angles := by
  cases kind <;> rfl

theorem valid_ofLayers (hn : 2 ≤ n) (axis : Axis) (angles : Nat → Int) :
    (ofLayers n axis angles).Valid n := by
  refine ⟨rfl, ?_⟩
  intro kind
  rw [arrangement_ofLayers]
  exact valid_byLayer hn kind axis angles

/-- A run of turns about one axis is not refused, and rearranges a cube by the state in which each
layer is turned by the sum of the angles of the turns that turn it. -/
theorem turns_eq_ofLayers (hn : 2 ≤ n) (hc : c.Valid n) (ts : List (LegalTurn n))
    (haxis : ∀ t ∈ ts, t.axis = axis) :
    c.turns ts = .ok (c.andThen (ofLayers n axis (angleSum ts))) := by
  induction ts generalizing c with
  | nil =>
    have hstill : ofLayers n axis (angleSum ([] : List (LegalTurn n))) = solved n := by
      refine ext_arrangement rfl ?_
      intro kind
      rw [arrangement_ofLayers, arrangement_solved]
      exact byLayer_zero hn
    rw [hstill, hc.andThen_solved]
    rfl
  | cons t ts ih =>
    obtain ⟨ht, hts⟩ := List.forall_mem_cons.mp haxis
    have hturn := valid_ofTurn hn t.axis t.mask t.angle
    have hadd : (ofTurn n t.axis t.mask t.angle).andThen (ofLayers n axis (angleSum ts)) =
        ofLayers n axis (angleSum (t :: ts)) := by
      refine ext_arrangement (show n = n from rfl) ?_
      intro kind
      simp only [arrangement_andThen, arrangement_ofTurn, arrangement_ofLayers, ht,
        arrangement_andThen_byLayer hn, angleSum_cons]
    calc c.turns (t :: ts) = (c.andThen (ofTurn n t.axis t.mask t.angle)).turns ts := by
          rw [turns, turn_legal hn hc t]
          rfl
      _ = .ok ((c.andThen (ofTurn n t.axis t.mask t.angle)).andThen
            (ofLayers n axis (angleSum ts))) := ih (hc.andThen hturn) hts
      _ = .ok (c.andThen (ofLayers n axis (angleSum (t :: ts)))) := by
          rw [hturn.andThen_assoc (valid_ofLayers hn axis _), hadd]

/-- **Turns about one axis add up layer by layer.** Two runs of legal turns about one axis lead from
a valid state to the same one if, for every layer, the angles of the turns of the one run that turn
it add up to the same as those of the other run do, modulo four. Neither run is refused. -/
theorem turns_eq_of_angleSum (hn : 2 ≤ n) (hc : c.Valid n) {ts ts' : List (LegalTurn n)}
    (hts : ∀ t ∈ ts, t.axis = axis) (hts' : ∀ t ∈ ts', t.axis = axis)
    (hsum : ∀ layer < n, angleSum ts layer % 4 = angleSum ts' layer % 4) :
    ∃ c', c.turns ts = .ok c' ∧ c.turns ts' = .ok c' ∧ c'.Valid n := by
  have hsame : ofLayers n axis (angleSum ts) = ofLayers n axis (angleSum ts') := by
    refine ext_arrangement rfl ?_
    intro kind
    rw [arrangement_ofLayers, arrangement_ofLayers]
    exact byLayer_congr hn hsum
  refine ⟨_, turns_eq_ofLayers hn hc ts hts, ?_, hc.andThen (valid_ofLayers hn axis _)⟩
  rw [turns_eq_ofLayers hn hc ts' hts', hsame]

/-- A quarter turn is legal. -/
theorem quarter_mem : (1 : Int) ∈ [-2, -1, 1, 2] := by decide

/-- On a cube with four layers, the two layers to the left by a quarter turn, and then the two in the
middle. -/
def overlappingTurns : List (LegalTurn 4) :=
  [⟨.x, 3, by decide, 1, quarter_mem⟩, ⟨.x, 6, by decide, 1, quarter_mem⟩]

/-- The layer that both of them turn by a half turn the other way, and then the layers on both sides of
it by a quarter turn. -/
def separateTurns : List (LegalTurn 4) :=
  [⟨.x, 2, by decide, -2, by decide⟩, ⟨.x, 5, by decide, 1, quarter_mem⟩]

/-- From a cube two of whose layers were turned about another axis, both lead to the same state. -/
theorem turns_eq_of_angleSum_overlapping :
    2 ≤ 4 ∧ (ofTurn 4 .y 5 1).Valid 4 ∧ (∀ t ∈ overlappingTurns, t.axis = .x) ∧
      (∀ t ∈ separateTurns, t.axis = .x) ∧
      (∀ layer < 4, angleSum overlappingTurns layer % 4 = angleSum separateTurns layer % 4) ∧
      ∃ c', (ofTurn 4 .y 5 1).turns overlappingTurns = .ok c' ∧
        (ofTurn 4 .y 5 1).turns separateTurns = .ok c' ∧ c'.Valid 4 := by
  have hvalid := valid_ofTurn (n := 4) (by decide) .y 5 1
  have haxis : ∀ t ∈ overlappingTurns, t.axis = .x := by simp [overlappingTurns]
  have haxis' : ∀ t ∈ separateTurns, t.axis = .x := by simp [separateTurns]
  have hsum : ∀ layer < 4, angleSum overlappingTurns layer % 4 = angleSum separateTurns layer % 4 :=
    by decide +kernel
  exact ⟨by decide, hvalid, haxis, haxis', hsum,
    turns_eq_of_angleSum (by decide) hvalid haxis haxis' hsum⟩

end Cube

end CubeLang
