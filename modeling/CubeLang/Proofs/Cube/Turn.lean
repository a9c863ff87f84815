import CubeLang.Proofs.Cube.Composition
import CubeLang.Proofs.Geometry.Twist

/-!
# What a turn does

A turn of some layers takes each location of these layers the part that its rotation carries there,
with the twist between the two locations, and leaves the other locations as they are. Since a
rotation about an axis keeps the layers, the part comes from the same layers, so that a turn is a
valid state of the cube. The tables that are kept hold what is computed from the positions.
-/

set_option autoImplicit false

namespace CubeLang

namespace Turn

variable {n : Nat} {kind : PartKind} {axis : Axis} {mask : Nat} {angle : Int}

/-! ## The tables kept -/

/-- A table depends on its angle modulo four. -/
theorem table_emod (n : Nat) (kind : PartKind) (axis : Axis) (angle : Int) :
    table n kind axis (angle % 4) = table n kind axis angle := by
  have hneg : Matrix.rotation axis (-(angle % 4)) = Matrix.rotation axis (-angle) := by
    have h : -(angle % 4) % 4 = -angle % 4 := by omega
    rw [← Matrix.rotation_emod axis (-(angle % 4)), h, Matrix.rotation_emod]
  have hentry : entry n kind axis (angle % 4) = entry n kind axis angle := by
    funext target v
    simp only [entry, hneg, Matrix.rotation_emod]
  unfold table
  rw [hentry]

/-- The place of a kind in the tables. -/
def kindIndex : PartKind → Nat
  | .side => 0
  | .edge => 1
  | .corner => 2

/-- Where the tables are kept. -/
theorem getElem?_tables (a b c d : Nat) (hb : b < 3) (hc : c < 3) (hd : d < 4) :
    tables[((a * 3 + b) * 3 + c) * 4 + d]? =
      ((List.range 6)[a]?).bind fun n => (PartKind.all[b]?).bind fun kind =>
        (Axis.all[c]?).map fun axis => table (n + 2) kind axis (d : Nat) := by
  have hangles : ∀ n kind axis,
      ((List.range 4).map fun angle : Nat => table (n + 2) kind axis angle).length = 4 := by
    intros
    rw [List.length_map]
    rfl
  have haxes : ∀ n kind, (Axis.all.flatMap fun axis =>
      (List.range 4).map fun angle : Nat => table (n + 2) kind axis angle).length = 12 := by
    intros
    simp [Axis.all]
  have hkinds : ∀ n, (PartKind.all.flatMap fun kind => Axis.all.flatMap fun axis =>
      (List.range 4).map fun angle : Nat => table (n + 2) kind axis angle).length = 36 := by
    intros
    simp [Axis.all, PartKind.all]
  unfold tables
  rw [List.getElem?_toArray, getElem?_blocks (by decide) hkinds]
  have h₁ : (((a * 3 + b) * 3 + c) * 4 + d) / 36 = a := by omega
  have h₂ : (((a * 3 + b) * 3 + c) * 4 + d) % 36 / 12 = b := by omega
  have h₃ : (((a * 3 + b) * 3 + c) * 4 + d) % 36 % 12 / 4 = c := by omega
  have h₄ : (((a * 3 + b) * 3 + c) * 4 + d) % 36 % 12 % 4 = d := by omega
  rw [h₁]
  congr 1
  funext n
  rw [getElem?_blocks (by decide) (haxes n), h₂]
  congr 1
  funext kind
  rw [getElem?_blocks (by decide) (hangles n kind), h₃]
  rw [Option.map_eq_bind]
  congr 1
  funext axis
  rw [List.getElem?_map, h₄]
  simp [hd]

/-- The table of a turn is what is computed from the positions, kept or not. -/
theorem tableOf_eq (n : Nat) (kind : PartKind) (axis : Axis) (angle : Int) :
    tableOf n kind axis angle = table n kind axis angle := by
  unfold tableOf
  split
  · rfl
  · rename_i hn
    have hindex : tableIndex n kind axis angle =
        (((n - 2) * 3 + kindIndex kind) * 3 + axis.index) * 4 + (angle % 4).toNat := by
      cases kind <;> rfl
    have hkind : PartKind.all[kindIndex kind]? = some kind := by cases kind <;> rfl
    have haxis : Axis.all[axis.index]? = some axis := by cases axis <;> rfl
    have hangle : (((angle % 4).toNat : Nat) : Int) = angle % 4 := by omega
    rw [hindex, getElem?_tables _ _ _ _ (by cases kind <;> decide) (by cases axis <;> decide)
      (by omega), hkind, haxis]
    by_cases hlt : n - 2 < 6
    · have hn' : n - 2 + 2 = n := by omega
      rw [List.getElem?_range hlt]
      simp only [Option.bind_some, Option.map_some, hn', hangle, table_emod]
    · rw [List.getElem?_eq_none (by simpa using hlt)]
      rfl

/-! ## The arrangement of a turn -/

theorem size_arrangement (hn : 2 ≤ n) :
    (arrangement n kind axis mask angle).size = kind.count n := by
  simp [arrangement, tableOf_eq, table, length_positions hn]

/-- A location in one of the layers takes a part from elsewhere; the others keep theirs. -/
theorem slot_arrangement (hn : 2 ≤ n) {i : Nat} (hi : i < kind.count n) :
    (arrangement n kind axis mask angle).slot i =
      let e := entry n kind axis angle i (position n kind i)
      if mask.testBit e.layer then ⟨e.source, e.twist⟩ else ⟨i, 0⟩ := by
  have hlt : i < (arrangement n kind axis mask angle).size := by rwa [size_arrangement hn]
  have hget : (positions n kind)[i]? = some (position n kind i) := getElem?_positions hn hi
  obtain ⟨hi', hget⟩ := List.getElem?_eq_some_iff.mp hget
  rw [Arrangement.slot_eq_getElem hlt]
  simp [arrangement, tableOf_eq, table, hget]

/-- The layer of a location along an axis. -/
def layerAt (n : Nat) (kind : PartKind) (axis : Axis) (i : Nat) : Nat :=
  layerOf n axis (position n kind i)

/-- A rotation about an axis carries locations to locations of the same layer. -/
theorem layerAt_of_carries {i j : Nat}
    (h : Carries n kind (Matrix.rotation axis angle) i j) :
    layerAt n kind axis j = layerAt n kind axis i := by
  unfold layerAt layerOf
  rw [← h.position, Matrix.component_rotation]

/-- Counted from the other end, a layer has as many layers in front of it as it had behind it. -/
theorem layerOf_of_neg {axis' : Axis} {v v' : Vec} (h : OnGrid n (axis.component v))
    (hneg : axis'.component v' = -axis.component v) :
    layerOf n axis' v' = n - 1 - layerOf n axis v := by
  obtain ⟨hlow, hhigh, hparity⟩ := h
  unfold layerOf
  rw [hneg]
  omega

theorem layerAt_lt (hn : 2 ≤ n) {i : Nat} (hi : i < kind.count n) : layerAt n kind axis i < n := by
  obtain ⟨hlow, hhigh, -⟩ := (pointsOut_position hn hi).1 axis
  unfold layerAt layerOf
  omega

/-- A location that is not in one of the layers keeps its part. -/
theorem slot_of_not_mem (hn : 2 ≤ n) {i : Nat} (hi : i < kind.count n)
    (hlayer : mask.testBit (layerAt n kind axis i) = false) :
    (arrangement n kind axis mask angle).slot i = ⟨i, 0⟩ := by
  rw [slot_arrangement hn hi]
  have hbit : mask.testBit (layerOf n axis (position n kind i)) = false := hlayer
  simp [entry, hbit]

/-- What a turn of all layers does at a location to which the rotation carries another one. -/
theorem entry_of_carries (hn : 2 ≤ n) {i j : Nat}
    (h : Carries n kind (Matrix.rotation axis angle) i j) :
    entry n kind axis angle j (position n kind j) =
      ⟨i, twistBetween kind (Matrix.rotation axis angle) i j, layerAt n kind axis i⟩ := by
  have hsource :
      locationAt n kind ((Matrix.rotation axis (-angle)).apply (position n kind j)) = i := by
    rw [← h.position, Matrix.apply_rotation_neg, locationAt_position hn h.source_lt]
  unfold entry
  rw [hsource, ← layerAt_of_carries h]
  rfl

/-- A location in one of the layers takes the part that the rotation carries to it, with the twist
between the two locations. -/
theorem slot_of_carries (hn : 2 ≤ n) {i j : Nat}
    (h : Carries n kind (Matrix.rotation axis angle) i j)
    (hlayer : mask.testBit (layerAt n kind axis i) = true) :
    (arrangement n kind axis mask angle).slot j =
      ⟨i, twistBetween kind (Matrix.rotation axis angle) i j⟩ := by
  rw [slot_arrangement hn h.target_lt, entry_of_carries hn h]
  exact if_pos hlayer

/-- Every location is carried somewhere by a rotation about an axis. -/
theorem exists_target (hn : 2 ≤ n) {i : Nat} (hi : i < kind.count n) (axis : Axis) (angle : Int) :
    ∃ j, Carries n kind (Matrix.rotation axis angle) i j := by
  obtain ⟨j, hj, h⟩ := exists_location hn (Matrix.isRotation_rotation axis angle) hi
  exact ⟨j, hi, hj, h⟩

/-- To every location some location is carried by a rotation about an axis. -/
theorem exists_source (hn : 2 ≤ n) {j : Nat} (hj : j < kind.count n) (axis : Axis) (angle : Int) :
    ∃ i, Carries n kind (Matrix.rotation axis angle) i j := by
  obtain ⟨i, hi, h⟩ := exists_location hn (Matrix.isRotation_rotation axis (-angle)) hj
  refine ⟨i, hi, hj, ?_⟩
  rw [← h, Matrix.apply_rotation_apply_neg]

/-- A turn moves every part somewhere and gives it a twist of its kind, whatever the layers. -/
theorem valid_arrangement (hn : 2 ≤ n) (kind : PartKind) (axis : Axis) (mask : Nat) (angle : Int) :
    (arrangement n kind axis mask angle).Valid kind (kind.count n) := by
  rw [Arrangement.valid_iff]
  refine ⟨size_arrangement hn, ?_, ?_⟩
  · intro p hp
    cases hlayer : mask.testBit (layerAt n kind axis p) with
    | false => exact ⟨p, hp, by rw [slot_of_not_mem hn hp hlayer]⟩
    | true =>
      obtain ⟨j, hj⟩ := exists_target hn hp axis angle
      exact ⟨j, hj.target_lt, by rw [slot_of_carries hn hj hlayer]⟩
  · intro i hi
    cases hlayer : mask.testBit (layerAt n kind axis i) with
    | false =>
      rw [slot_of_not_mem hn hi hlayer]
      exact Arrangement.modulus_pos kind
    | true =>
      obtain ⟨j, hj⟩ := exists_source hn hi axis angle
      rw [layerAt_of_carries hj] at hlayer
      rw [slot_of_carries hn hj hlayer]
      exact (hj.map_frame hn (Matrix.isRotation_rotation axis angle)).1

/-- A turn depends on its angle modulo four. -/
theorem arrangement_emod (n : Nat) (kind : PartKind) (axis : Axis) (mask : Nat) (angle : Int) :
    arrangement n kind axis mask (angle % 4) = arrangement n kind axis mask angle := by
  simp only [arrangement, tableOf_eq, table_emod]

/-- Turning the same layers twice about one axis is turning them by both angles. -/
theorem arrangement_andThen_add (hn : 2 ≤ n) (kind : PartKind) (axis : Axis) (mask : Nat)
    (angle angle' : Int) :
    (arrangement n kind axis mask angle).andThen kind.modulus
      (arrangement n kind axis mask angle') = arrangement n kind axis mask (angle + angle') := by
  refine Arrangement.ext_slot (by simp [size_arrangement hn]) ?_
  intro k hk
  rw [Arrangement.size_andThen] at hk
  have hlt : k < kind.count n := by rwa [size_arrangement hn] at hk
  rw [Arrangement.slot_andThen hk]
  cases hlayer : mask.testBit (layerAt n kind axis k) with
  | false => simp [slot_of_not_mem hn hlt hlayer]
  | true =>
    obtain ⟨j, hjk⟩ := exists_source hn hlt axis angle'
    obtain ⟨i, hij⟩ := exists_source hn hjk.source_lt axis angle
    have hlayer' : mask.testBit (layerAt n kind axis j) = true := by
      rwa [layerAt_of_carries hjk] at hlayer
    have hlayer'' : mask.testBit (layerAt n kind axis i) = true := by
      rwa [layerAt_of_carries hij] at hlayer'
    have hrotation := Matrix.rotation_mul axis angle angle'
    have hik : Carries n kind (Matrix.rotation axis (angle + angle')) i k :=
      hrotation ▸ hij.trans hjk
    have htwist := twistBetween_mul hn (Matrix.isRotation_rotation axis angle)
      (Matrix.isRotation_rotation axis angle') hij hjk
    rw [hrotation] at htwist
    rw [slot_of_carries hn hjk hlayer', slot_of_carries hn hij hlayer'',
      slot_of_carries hn hik hlayer'', htwist]

/-- A turn by no angle leaves every part in its place. -/
theorem arrangement_no_angle (hn : 2 ≤ n) (kind : PartKind) (axis : Axis) (mask : Nat) :
    arrangement n kind axis mask 0 = Arrangement.solved (kind.count n) := by
  refine Arrangement.ext_slot (by simp [size_arrangement hn]) ?_
  intro i hi
  have hlt : i < kind.count n := by rwa [size_arrangement hn] at hi
  rw [Arrangement.slot_solved]
  cases hlayer : mask.testBit (layerAt n kind axis i) with
  | false => rw [slot_of_not_mem hn hlt hlayer]
  | true =>
    have hstill : Carries n kind (Matrix.rotation axis 0) i i :=
      ⟨hlt, hlt, by rw [Matrix.rotation_zero, Matrix.apply_one]⟩
    rw [slot_of_carries hn hstill hlayer, Matrix.rotation_zero, twistBetween_one hn hlt]

end Turn

/-! ## Turning a cube -/

/-- A turn that a cube with `n` layers does not refuse. -/
structure LegalTurn (n : Nat) where
  axis : Axis
  mask : Nat
  mask_lt : mask < 2 ^ n
  angle : Int
  angle_mem : angle ∈ [-2, -1, 1, 2]

namespace Cube

variable {n : Nat} {c : Cube}

/-- The state that a turn of some layers makes of the solved cube. -/
def ofTurn (n : Nat) (axis : Axis) (mask : Nat) (angle : Int) : Cube where
  layerCount := n
  corners := Turn.arrangement n .corner axis mask angle
  edges := Turn.arrangement n .edge axis mask angle
  sides := Turn.arrangement n .side axis mask angle

@[simp] theorem arrangement_ofTurn (axis : Axis) (mask : Nat) (angle : Int) (kind : PartKind) :
    (ofTurn n axis mask angle).arrangement kind = Turn.arrangement n kind axis mask angle := by
  cases kind <;> rfl

/-- The state of a turn is valid. -/
theorem valid_ofTurn (hn : 2 ≤ n) (axis : Axis) (mask : Nat) (angle : Int) :
    (ofTurn n axis mask angle).Valid n := by
  refine ⟨rfl, ?_⟩
  intro kind
  rw [arrangement_ofTurn]
  exact Turn.valid_arrangement hn kind axis mask angle

/-- Turning layers rearranges a cube by the state of the turn. -/
theorem turnLayers_eq_andThen (hc : c.layerCount = n) (axis : Axis) (mask : Nat) (angle : Int) :
    c.turnLayers axis mask angle = c.andThen (ofTurn n axis mask angle) := by
  subst hc
  rfl

/-- A turn of no layer changes nothing. -/
theorem ofTurn_no_layer (hn : 2 ≤ n) (axis : Axis) (angle : Int) :
    ofTurn n axis 0 angle = solved n := by
  refine ext_arrangement rfl ?_
  intro kind
  rw [arrangement_ofTurn, arrangement_solved]
  refine Arrangement.ext_slot (by simp [Turn.size_arrangement hn]) ?_
  intro i hi
  rw [Turn.size_arrangement hn] at hi
  rw [Turn.slot_of_not_mem hn hi (Nat.zero_testBit _), Arrangement.slot_solved]

/-- So does a turn by no angle. -/
theorem ofTurn_no_angle (hn : 2 ≤ n) (axis : Axis) (mask : Nat) :
    ofTurn n axis mask 0 = solved n := by
  refine ext_arrangement rfl ?_
  intro kind
  rw [arrangement_ofTurn, arrangement_solved, Turn.arrangement_no_angle hn]

theorem ofTurn_emod (n : Nat) (axis : Axis) (mask : Nat) (angle : Int) :
    ofTurn n axis mask (angle % 4) = ofTurn n axis mask angle := by
  simp only [ofTurn, Turn.arrangement_emod]

/-- Turning the same layers twice about one axis is turning them by both angles. -/
theorem ofTurn_andThen_add (hn : 2 ≤ n) (axis : Axis) (mask : Nat) (angle angle' : Int) :
    (ofTurn n axis mask angle).andThen (ofTurn n axis mask angle') =
      ofTurn n axis mask (angle + angle') := by
  refine ext_arrangement rfl ?_
  intro kind
  simp only [arrangement_andThen, arrangement_ofTurn]
  exact Turn.arrangement_andThen_add hn kind axis mask angle angle'

/-- A legal turn rearranges a cube by the state of the turn. -/
theorem turn_ok (hn : 2 ≤ n) (hc : c.Valid n) {axis mask angle : Int} {a : Axis}
    (haxis : Axis.ofInt? axis = some a) (hmask : LayerMask.isOf mask n = true)
    (hangle : [-2, -1, 1, 2].contains angle = true) :
    c.turn axis mask angle = .ok (c.andThen (ofTurn n a mask.toNat angle)) := by
  simp only [turn, haxis, hc.1, hmask, hangle, Bool.not_true, Bool.false_eq_true, if_false, if_true]
  by_cases hzero : mask = 0
  · subst hzero
    rw [if_pos rfl, Int.toNat_zero, ofTurn_no_layer hn, hc.andThen_solved]
  · rw [if_neg hzero, turnLayers_eq_andThen hc.1]

/-- Whether a turn is refused depends on its numbers and the number of layers only; one that is not
refused does the same to every cube. -/
theorem turn_uniform (hn : 2 ≤ n) (axis mask angle : Int) :
    (∃ a, ∀ c : Cube, c.Valid n →
        c.turn axis mask angle = .ok (c.andThen (ofTurn n a mask.toNat angle))) ∨
      ∃ fault, ∀ c : Cube, c.Valid n → c.turn axis mask angle = .error fault := by
  cases haxis : Axis.ofInt? axis with
  | none =>
    refine Or.inr ⟨.axis axis, ?_⟩
    intro c _
    simp only [turn, haxis]
  | some a =>
    cases hmask : LayerMask.isOf mask n with
    | false =>
      refine Or.inr ⟨.mask mask n, ?_⟩
      intro c hc
      simp only [turn, haxis, hc.1, hmask, Bool.not_false, if_true]
    | true =>
      cases hangle : [-2, -1, 1, 2].contains angle with
      | false =>
        refine Or.inr ⟨.angle angle, ?_⟩
        intro c hc
        simp only [turn, haxis, hc.1, hmask, hangle, Bool.not_true, Bool.false_eq_true, if_false]
      | true => exact Or.inl ⟨a, fun c hc => turn_ok hn hc haxis hmask hangle⟩

/-- The cube after some turns. -/
def turns (c : Cube) : List (LegalTurn n) → Except Fault Cube
  | [] => .ok c
  | t :: ts => do
    let c ← c.turn t.axis.index t.mask t.angle
    c.turns ts

/-- A legal turn rearranges a cube by its state. -/
theorem turn_legal (hn : 2 ≤ n) (hc : c.Valid n) (t : LegalTurn n) :
    c.turn t.axis.index t.mask t.angle = .ok (c.andThen (ofTurn n t.axis t.mask t.angle)) := by
  have haxis : Axis.ofInt? t.axis.index = some t.axis := by cases t.axis <;> rfl
  have hmask : LayerMask.isOf t.mask n = true := by
    simpa [LayerMask.isOf, Nat.one_shiftLeft] using t.mask_lt
  have hangle : [-2, -1, 1, 2].contains t.angle = true := by
    rw [List.contains_iff_mem]
    exact t.angle_mem
  have h := turn_ok hn hc haxis hmask hangle
  rwa [Int.toNat_natCast] at h

/-- What every legal turn keeps is kept by a run of them, none of which is refused. -/
theorem turns_keep (hn : 2 ≤ n) {P : Cube → Prop}
    (hstep : ∀ c (t : LegalTurn n), c.Valid n → P c →
      P (c.andThen (ofTurn n t.axis t.mask t.angle)))
    (ts : List (LegalTurn n)) (hc : c.Valid n) (h : P c) :
    ∃ c', c.turns ts = .ok c' ∧ c'.Valid n ∧ P c' := by
  induction ts generalizing c with
  | nil => exact ⟨c, rfl, hc, h⟩
  | cons t ts ih =>
    have hvalid := hc.andThen (valid_ofTurn hn t.axis t.mask t.angle)
    obtain ⟨c', hrun, hc', h'⟩ := ih hvalid (hstep c t hc h)
    refine ⟨c', ?_, hc', h'⟩
    rw [turns, turn_legal hn hc t]
    exact hrun

end Cube

end CubeLang
