import CubeLang.Proofs.Cube.Turn
import CubeLang.Proofs.Geometry.GrownOffsets

/-!
# Building the table of a turn

The table of a turn can also be built from where the parts come from: each location is looked at in
its order, its position rotated and looked up among the positions, and the twist found by looking
up faces and directions. Each of these searches may fail. For a cube with two or more layers none
does, whatever the kind, the axis and the angle; the locations come to each other's places, in the
same layer each, and what is found is what the table computed from the other side holds.
-/

set_option autoImplicit false

namespace CubeLang.Turn

variable {n : Nat} {kind : PartKind} {axis : Axis} {angle : Int}

/-! ## Searches -/

/-- The anticlockwise quarter turns that carry one direction to another, if the other is in the
plane of the face. -/
def anticlockwiseTurns? (face : Face) (source target : Vec) : Option Nat :=
  (List.range 4).find? fun turns => face.anticlockwise^[turns] source = target

/-- The place of the first face of a location among the faces of another one, to which it is
rotated. -/
def firstFacePlace? (faces : List (List Face)) (m : Matrix) (source target : Nat) : Option Nat := do
  let here ← faces[source]?
  let first ← here.head?
  let face ← Face.ofNormal? (m.apply first.normal)
  let there ← faces[target]?
  there.idxOf? face

/-- The twist that a rotation gives to a part carried from one location to another. -/
def twist? (kind : PartKind) (m : Matrix) (source target : Nat) : Option Nat :=
  match kind with
  | .corner => (firstFacePlace? cornerFaces m source target).map fun place =>
      (-(place : Int) % 3).toNat
  | .edge => firstFacePlace? edgeFaces m (source % 12) (target % 12)
  | .side =>
    let there := Face.ofIndex target
    anticlockwiseTurns? there there.reference (m.apply (Face.ofIndex source).reference)

/-- Where a part comes to, with which twist, and its layer. -/
structure Movement where
  target : Nat
  twist : Nat
  layer : Int

/-- What a turn of all layers does with the part at a location with the position `v`. -/
def movement? (n : Nat) (kind : PartKind) (axis : Axis) (angle : Int) (source : Nat) (v : Vec) :
    Option Movement := do
  let m := Matrix.rotation axis angle
  let target ← (grownPositions n kind).idxOf? (m.apply v)
  let twist ← twist? kind m source target
  return ⟨target, twist, (axis.component v + (n - 1)) / 2⟩

/-- What a turn of all layers does with the parts at some positions, those of the locations from a
number on. -/
def movementsFrom? (n : Nat) (kind : PartKind) (axis : Axis) (angle : Int) (source : Nat) :
    List Vec → Option (List Movement)
  | [] => some []
  | v :: vs => do
    let move ← movement? n kind axis angle source v
    let moves ← movementsFrom? n kind axis angle (source + 1) vs
    return move :: moves

/-- What a turn of all layers does with the part at each location. -/
def movements? (n : Nat) (kind : PartKind) (axis : Axis) (angle : Int) : Option (List Movement) :=
  movementsFrom? n kind axis angle 0 (grownPositions n kind)

/-! ## The searches succeed -/

/-- What the searches for a twist find depends on the directions only. -/
theorem twist?_mod (kind : PartKind) (m : Matrix) {i j : Nat} (hi : i < kind.count n)
    (hj : j < kind.count n) :
    twist? kind m (i % kind.directions) (j % kind.directions) = twist? kind m i j := by
  cases kind with
  | corner =>
    rw [Nat.mod_eq_of_lt (show i < PartKind.directions .corner from hi),
      Nat.mod_eq_of_lt (show j < PartKind.directions .corner from hj)]
  | edge => simp [twist?, PartKind.directions]
  | side => simp [twist?, PartKind.directions, Face.ofIndex]

/-- Between a direction and the rotated one, the searches find the twist. -/
theorem twist?_of_direction (kind : PartKind) {m : Matrix} (hm : m.IsRotation) {i j : Nat}
    (hi : i < kind.directions) (hj : j < kind.directions)
    (h : m.apply (direction kind i) = direction kind j) :
    twist? kind m i j = some (twistBetween kind m i j) := by
  have all : ∀ kind ∈ PartKind.all, ∀ m ∈ Matrix.rotations, ∀ i < kind.directions,
      ∀ j < kind.directions, m.apply (direction kind i) = direction kind j →
        twist? kind m i j = some (twistBetween kind m i j) := by decide +kernel
  exact all kind (by cases kind <;> decide) m hm i hi j hj h

/-- Between a location and the one to which a rotation carries it, the searches find the twist. -/
theorem twist?_of_carries (hn : 2 ≤ n) {m : Matrix} (hm : m.IsRotation) {i j : Nat}
    (h : Carries n kind m i j) : twist? kind m i j = some (twistBetween kind m i j) := by
  rw [← twist?_mod kind m h.source_lt h.target_lt,
    ← twistBetween_mod kind m h.source_lt h.target_lt]
  refine twist?_of_direction kind hm (Nat.mod_lt i (directions_pos kind))
    (Nat.mod_lt j (directions_pos kind)) ?_
  rw [direction_mod kind h.source_lt, direction_mod kind h.target_lt]
  exact h.apply_direction hn hm

/-! ## What is found -/

/-- Where a turn of all layers carries a location. -/
def targetOf (n : Nat) (kind : PartKind) (axis : Axis) (angle : Int) (source : Nat) : Nat :=
  locationAt n kind ((Matrix.rotation axis angle).apply (position n kind source))

/-- What is found for a location. -/
def movementOf (n : Nat) (kind : PartKind) (axis : Axis) (angle : Int) (source : Nat) : Movement :=
  let target := targetOf n kind axis angle source
  ⟨target, twistBetween kind (Matrix.rotation axis angle) source target, layerAt n kind axis source⟩

/-- Every location is carried to the location at its rotated position. -/
theorem carries_targetOf (hn : 2 ≤ n) {i : Nat} (hi : i < kind.count n) (axis : Axis)
    (angle : Int) :
    Carries n kind (Matrix.rotation axis angle) i (targetOf n kind axis angle i) := by
  obtain ⟨j, hj⟩ := exists_target hn hi axis angle
  have htarget : targetOf n kind axis angle i = j := by
    unfold targetOf
    rw [hj.position, locationAt_position hn hj.target_lt]
  rwa [htarget]

/-- At a location of the cube all searches succeed. -/
theorem movement?_position (hn : 2 ≤ n) {i : Nat} (hi : i < kind.count n) :
    movement? n kind axis angle i (position n kind i) = some (movementOf n kind axis angle i) := by
  have hrotation := Matrix.isRotation_rotation axis angle
  have hfound : (positions n kind).idxOf? ((Matrix.rotation axis angle).apply (position n kind i)) =
      some (targetOf n kind axis angle i) :=
    List.findIdx?_eq_some_iff_findIdx_eq.mpr
      ⟨List.idxOf_lt_length_of_mem (apply_mem_positions hn hrotation (position_mem hn hi)), rfl⟩
  have htwist := twist?_of_carries hn hrotation (carries_targetOf hn hi axis angle)
  have hlayer : (axis.component (position n kind i) + (n - 1 : Int)) / 2 = layerAt n kind axis i := by
    obtain ⟨hlow, -, -⟩ := (pointsOut_position hn hi).1 axis
    unfold layerAt layerOf
    omega
  simp only [movement?, grownPositions_eq hn, hfound, htwist, hlayer, Option.bind_eq_bind,
    Option.bind_some]
  rfl

/-- From one location on, all searches succeed at each of the next ones. -/
theorem movementsFrom?_positions (hn : 2 ≤ n) {vs : List Vec} {i : Nat}
    (hvs : (positions n kind).drop i = vs) :
    movementsFrom? n kind axis angle i vs =
      some ((List.range' i vs.length).map (movementOf n kind axis angle)) := by
  -- By induction on the positions that are left, with the location of the first of them.
  induction vs generalizing i with
  | nil => rfl
  | cons v vs ih =>
    have hv : (positions n kind)[i]? = some v := by
      rw [← List.head?_drop, hvs, List.head?_cons]
    have hrest : (positions n kind).drop (i + 1) = vs := by
      rw [← List.tail_drop, hvs, List.tail_cons]
    have hi : i < kind.count n := by
      rw [← length_positions hn]
      exact (List.getElem?_eq_some_iff.mp hv).1
    rw [getElem?_positions hn hi, Option.some_inj] at hv
    subst hv
    simp only [movementsFrom?, movement?_position hn hi, ih hrest, Option.bind_eq_bind,
      Option.bind_some, List.length_cons, List.range'_succ, List.map_cons]
    rfl

/-- No search fails, and what is found is known for every location. -/
theorem movements?_eq (hn : 2 ≤ n) (kind : PartKind) (axis : Axis) (angle : Int) :
    movements? n kind axis angle =
      some ((List.range (kind.count n)).map (movementOf n kind axis angle)) := by
  unfold movements?
  rw [grownPositions_eq hn, movementsFrom?_positions hn (List.drop_zero (l := positions n kind)),
    length_positions hn, List.range_eq_range']

/-- No two locations are carried to the same one. -/
theorem targetOf_injective (hn : 2 ≤ n) {i j : Nat} (hi : i < kind.count n) (hj : j < kind.count n)
    (h : targetOf n kind axis angle i = targetOf n kind axis angle j) : i = j := by
  have hi' := (carries_targetOf hn hi axis angle).position
  have hj' := (carries_targetOf hn hj axis angle).position
  rw [h, ← hj'] at hi'
  have hback := congrArg (Matrix.rotation axis (-angle)).apply hi'
  rw [Matrix.apply_rotation_neg, Matrix.apply_rotation_neg] at hback
  exact position_injective hn hi hj hback

/-- The locations to which they are carried are all of the locations. -/
theorem perm_targetOf (hn : 2 ≤ n) (kind : PartKind) (axis : Axis) (angle : Int) :
    ((List.range (kind.count n)).map (targetOf n kind axis angle)).Perm
      (List.range (kind.count n)) := by
  have hnodup : ((List.range (kind.count n)).map (targetOf n kind axis angle)).Nodup := by
    refine List.Nodup.map_on ?_ List.nodup_range
    intro i hi j hj h
    exact targetOf_injective hn (List.mem_range.mp hi) (List.mem_range.mp hj) h
  refine (List.subperm_of_subset hnodup ?_).perm_of_length_le ?_
  · intro j hj
    obtain ⟨i, hi, rfl⟩ := List.mem_map.mp hj
    exact List.mem_range.mpr (carries_targetOf hn (List.mem_range.mp hi) axis angle).target_lt
  · rw [List.length_map]

/-- The table of a turn has an entry for what comes to a location. -/
theorem table_of_carries (hn : 2 ≤ n) {i j : Nat}
    (h : Carries n kind (Matrix.rotation axis angle) i j) :
    (table n kind axis angle)[j]? =
      some ⟨i, twistBetween kind (Matrix.rotation axis angle) i j, layerAt n kind axis i⟩ := by
  unfold table
  rw [List.getElem?_toArray, List.getElem?_mapIdx, getElem?_positions hn h.target_lt,
    Option.map_some, entry_of_carries hn h]

/-! ## The geometry is closed -/

/-- What some locations come to is a turn of the locations of a kind: they come to each other's
places, each within its layer, which is one of the cube's, with a twist of the kind, and from the
other side each place has the same entry in the table of the turn. -/
structure IsTurn (n : Nat) (kind : PartKind) (axis : Axis) (angle : Int)
    (moves : List Movement) : Prop where
  length_eq : moves.length = kind.count n
  permutes : (moves.map Movement.target).Perm (List.range (kind.count n))
  layer_eq : ∀ move ∈ moves, ∃ there, moves[move.target]? = some there ∧ there.layer = move.layer
  layer_mem : ∀ move ∈ moves, 0 ≤ move.layer ∧ move.layer < n
  twist_lt : ∀ move ∈ moves, move.twist < kind.modulus
  table_eq : ∀ (source : Nat) (move : Movement), moves[source]? = some move →
    (table n kind axis angle)[move.target]? = some ⟨source, move.twist, move.layer.toNat⟩

/-- What is found for all locations is a turn of them. -/
theorem isTurn_movementOf (hn : 2 ≤ n) (kind : PartKind) (axis : Axis) (angle : Int) :
    IsTurn n kind axis angle
      ((List.range (kind.count n)).map (movementOf n kind axis angle)) := by
  have hget : ∀ {i}, i < kind.count n →
      ((List.range (kind.count n)).map (movementOf n kind axis angle))[i]? =
        some (movementOf n kind axis angle i) := by
    intro i hi
    rw [List.getElem?_map, List.getElem?_range hi, Option.map_some]
  have hmem : ∀ {move}, move ∈ (List.range (kind.count n)).map (movementOf n kind axis angle) →
      ∃ i < kind.count n, move = movementOf n kind axis angle i := by
    intro move hmove
    obtain ⟨i, hi, rfl⟩ := List.mem_map.mp hmove
    exact ⟨i, List.mem_range.mp hi, rfl⟩
  refine ⟨?length, ?permutes, ?layer, ?range, ?twist, ?table⟩
  case length => rw [List.length_map, List.length_range]
  case permutes =>
    rw [List.map_map]
    exact perm_targetOf hn kind axis angle
  case layer =>
    intro move hmove
    obtain ⟨i, hi, rfl⟩ := hmem hmove
    have hcarries := carries_targetOf hn hi axis angle
    refine ⟨_, hget hcarries.target_lt, ?_⟩
    exact congrArg Nat.cast (layerAt_of_carries hcarries)
  case range =>
    intro move hmove
    obtain ⟨i, hi, rfl⟩ := hmem hmove
    exact ⟨Int.natCast_nonneg _, Int.ofNat_lt.mpr (layerAt_lt hn hi)⟩
  case twist =>
    intro move hmove
    obtain ⟨i, hi, rfl⟩ := hmem hmove
    exact ((carries_targetOf hn hi axis angle).map_frame hn
      (Matrix.isRotation_rotation axis angle)).1
  case table =>
    intro source move hmove
    have hsource : source < kind.count n := by
      simpa using (List.getElem?_eq_some_iff.mp hmove).1
    rw [hget hsource, Option.some_inj] at hmove
    subst hmove
    exact table_of_carries hn (carries_targetOf hn hsource axis angle)

/-- **With two or more layers, the geometry is closed under turns.** The positions listed are as many
as the parts, none of them twice, and are those of the parts; and building the table of a turn never
fails, whatever the kind, the axis and the angle, and makes a turn of the locations. -/
theorem geometry_closed (hn : 2 ≤ n) :
    ((grownPositions n .corner).length = 8 ∧ (grownPositions n .edge).length = 12 * (n - 2) ∧
      (grownPositions n .side).length = 6 * (n - 2) ^ 2) ∧
    (∀ kind, (grownPositions n kind).Nodup ∧ grownPositions n kind = positions n kind) ∧
    ∀ kind axis angle, ∃ moves, movements? n kind axis angle = some moves ∧
      IsTurn n kind axis angle moves := by
  refine ⟨⟨length_grownPositions hn .corner, length_grownPositions hn .edge, ?_⟩, ?_, ?_⟩
  · rw [length_grownPositions hn, PartKind.count, sq]
  · intro kind
    rw [grownPositions_eq hn]
    exact ⟨nodup_positions hn kind, rfl⟩
  · intro kind axis angle
    exact ⟨_, movements?_eq hn kind axis angle, isTurn_movementOf hn kind axis angle⟩

/-- A cube with nine layers, more than are supported, has 294 side parts, and a turn of it about
the second axis can be built. -/
theorem geometry_closed_nine : 2 ≤ 9 ∧ (grownPositions 9 .side).length = 294 ∧
    ∃ moves, movements? 9 .side .y 3 = some moves ∧ IsTurn 9 .side .y 3 moves := by
  obtain ⟨⟨-, -, hside⟩, -, hturn⟩ := geometry_closed (n := 9) (by decide)
  exact ⟨by decide, hside, hturn .side .y 3⟩

end CubeLang.Turn
