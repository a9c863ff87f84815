import CubeLang.Proofs.Cube.Turn

/-!
# The parts as rigid bodies

A cube can be seen as a set of bodies in space. Each body starts at the position of its part, not
turned at all, and each turn rotates the bodies that are in its layers, position and attitude alike.
What the arrangements of a cube say after any run of turns is what can be read off these bodies:
which one is where, and by how much it is twisted.
-/

set_option autoImplicit false

namespace CubeLang

open Turn

/-- A body in space: where it is, and how it was turned since the start. -/
structure Body where
  position : Vec
  attitude : Matrix

namespace Body

variable {n : Nat}

/-- A body that was not turned yet. -/
def untouched (v : Vec) : Body := ⟨v, Matrix.one⟩

/-- A body after a turn, which rotates it if it is in one of the layers. -/
def turn (b : Body) (t : LegalTurn n) : Body :=
  if t.mask.testBit ((t.axis.component b.position + (n - 1)) / 2).toNat then
    ⟨(Matrix.rotation t.axis t.angle).apply b.position,
      (Matrix.rotation t.axis t.angle).mul b.attitude⟩
  else b

/-- A body after some turns. -/
def turns (b : Body) (ts : List (LegalTurn n)) : Body := ts.foldl turn b

/-- The bodies of the parts of a kind after some turns. -/
def all (kind : PartKind) (ts : List (LegalTurn n)) : List Body :=
  (positions n kind).map fun v => (untouched v).turns ts

end Body

variable {n : Nat}

/-- The arrangements of a cube agree with some bodies: each location holds the part whose body is at
the position of the location, and its twist is that of the body. -/
def Agrees (n : Nat) (c : Cube) (body : PartKind → Nat → Body) : Prop :=
  ∀ kind : PartKind, ∀ i < kind.count n,
    let s := (c.arrangement kind).slot i
    let b := body kind s.part
    b.position = position n kind i ∧ b.attitude.IsRotation ∧
      Carries n kind b.attitude s.part i ∧ s.twist = twistBetween kind b.attitude s.part i

/-- The solved cube agrees with the bodies that were not turned. -/
theorem agrees_solved (hn : 2 ≤ n) :
    Agrees n (Cube.solved n) fun kind p => Body.untouched (position n kind p) := by
  intro kind i hi
  rw [Cube.arrangement_solved, Arrangement.slot_solved]
  exact ⟨rfl, Matrix.isRotation_one, ⟨hi, hi, Matrix.apply_one _⟩, (twistBetween_one hn hi).symm⟩

/-- A turn of the cube and of the bodies keeps them in agreement. -/
theorem Agrees.turn (hn : 2 ≤ n) {c : Cube} (hc : c.Valid n) {body : PartKind → Nat → Body}
    (h : Agrees n c body) (t : LegalTurn n) :
    Agrees n (c.andThen (Cube.ofTurn n t.axis t.mask t.angle)) fun kind p =>
      (body kind p).turn t := by
  intro kind j hj
  have hsize : j < (Turn.arrangement n kind t.axis t.mask t.angle).size := by
    rwa [size_arrangement hn]
  rw [Cube.arrangement_andThen, Cube.arrangement_ofTurn, Arrangement.slot_andThen hsize]
  cases hlayer : t.mask.testBit (layerAt n kind t.axis j) with
  | false =>
    obtain ⟨hposition, hrotation, hcarries, htwist⟩ := h kind j hj
    have hstill : t.mask.testBit ((t.axis.component (position n kind j) + (n - 1)) / 2).toNat =
        false := hlayer
    rw [slot_of_not_mem hn hj hlayer]
    simp only [Body.turn, hposition, hstill, Bool.false_eq_true, if_false, Nat.add_zero,
      Nat.mod_eq_of_lt ((hc.2 kind).twist_lt hj)]
    exact ⟨trivial, hrotation, hcarries, htwist⟩
  | true =>
    obtain ⟨i, hij⟩ := exists_source hn hj t.axis t.angle
    rw [layerAt_of_carries hij] at hlayer
    obtain ⟨hposition, hrotation, hcarries, htwist⟩ := h kind i hij.source_lt
    have hmoved : t.mask.testBit ((t.axis.component (position n kind i) + (n - 1)) / 2).toNat =
        true := hlayer
    have hturn := Matrix.isRotation_rotation t.axis t.angle
    rw [slot_of_carries hn hij hlayer]
    simp only [Body.turn, hposition, hmoved, if_true]
    refine ⟨hij.position, hturn.mul hrotation, hcarries.trans hij, ?_⟩
    rw [htwist, twistBetween_mul hn hrotation hturn hcarries hij]

/-- A run of turns succeeds and keeps the cube and the bodies in agreement. -/
theorem Agrees.turns (hn : 2 ≤ n) (ts : List (LegalTurn n)) {c : Cube} (hc : c.Valid n)
    {body : PartKind → Nat → Body} (h : Agrees n c body) :
    ∃ c', c.turns ts = .ok c' ∧ c'.Valid n ∧
      Agrees n c' fun kind p => (body kind p).turns ts := by
  induction ts generalizing c body with
  | nil => exact ⟨c, rfl, hc, h⟩
  | cons t ts ih =>
    have hvalid := hc.andThen (Cube.valid_ofTurn hn t.axis t.mask t.angle)
    obtain ⟨c', hrun, hc', h'⟩ := ih hvalid (h.turn hn hc t)
    refine ⟨c', ?_, hc', h'⟩
    rw [Cube.turns, Cube.turn_legal hn hc t]
    exact hrun

theorem getElem?_bodies (hn : 2 ≤ n) (ts : List (LegalTurn n)) {kind : PartKind} {p : Nat}
    (hp : p < kind.count n) :
    (Body.all kind ts)[p]? = some ((Body.untouched (position n kind p)).turns ts) := by
  rw [Body.all, List.getElem?_map, getElem?_positions hn hp, Option.map_some]

/-- **A cube moves as a rigid body does.** After any run of legal turns of the solved cube, each
location holds the part whose body, and no other, is at the position of the location; and its twist
is the one that the whole turning of that body since the start makes between the location where it
started and the one where it is. -/
theorem turns_move_rigid_bodies (hn : 2 ≤ n) (ts : List (LegalTurn n)) :
    ∃ c, (Cube.solved n).turns ts = .ok c ∧
      ∀ (kind : PartKind) (i : Nat) (v : Vec), (positions n kind)[i]? = some v →
        ∃ s b, (c.arrangement kind)[i]? = some s ∧ (Body.all kind ts)[s.part]? = some b ∧
          b.position = v ∧
          (∀ p b', (Body.all kind ts)[p]? = some b' → b'.position = v → p = s.part) ∧
          s.twist = twistBetween kind b.attitude s.part i := by
  obtain ⟨c, hrun, hc, h⟩ := (agrees_solved hn).turns hn ts Cube.valid_solved
  refine ⟨c, hrun, ?_⟩
  intro kind i v hv
  have hi : i < kind.count n := by
    rw [← length_positions hn]
    exact (List.getElem?_eq_some_iff.mp hv).1
  obtain rfl : position n kind i = v := by
    rw [getElem?_positions hn hi] at hv
    exact Option.some.inj hv
  obtain ⟨hposition, -, hcarries, htwist⟩ := h kind i hi
  have hsize : i < (c.arrangement kind).size := by rwa [(hc.2 kind).size_eq]
  refine ⟨(c.arrangement kind).slot i, _, ?_, getElem?_bodies hn ts hcarries.source_lt,
    hposition, ?_, htwist⟩
  · rw [Arrangement.slot_eq_getElem hsize, Array.getElem?_eq_getElem hsize]
  · intro p b hb hat
    have hp : p < kind.count n := by
      have hlt := (List.getElem?_eq_some_iff.mp hb).1
      rwa [Body.all, List.length_map, length_positions hn] at hlt
    -- The part is at some location, and its body is at the position of that location.
    obtain ⟨j, hj, rfl⟩ := (hc.2 kind).exists_slot hp
    rw [getElem?_bodies hn ts hp] at hb
    obtain rfl := Option.some.inj hb
    rw [position_injective hn hj hi ((h kind j hj).1.symm.trans hat)]

/-- A quarter turn of the right face of a cube with three layers, and one the other way round of
the two upper layers. -/
def rightThenUp : List (LegalTurn 3) :=
  [⟨.x, 4, by decide, 1, by decide⟩, ⟨.y, 6, by decide, -1, by decide⟩]

/-- After these turns the location above, right and in front holds the one body that is there, with
the twist of that body. -/
theorem turns_move_rigid_bodies_corner :
    2 ≤ 3 ∧ (positions 3 .corner)[0]? = some ⟨2, 2, 2⟩ ∧
      ∃ c, (Cube.solved 3).turns rightThenUp = .ok c ∧
        ∃ s b, (c.arrangement .corner)[0]? = some s ∧
          (Body.all .corner rightThenUp)[s.part]? = some b ∧ b.position = ⟨2, 2, 2⟩ ∧
          (∀ p b', (Body.all .corner rightThenUp)[p]? = some b' → b'.position = ⟨2, 2, 2⟩ →
            p = s.part) ∧
          s.twist = twistBetween .corner b.attitude s.part 0 := by
  refine ⟨by decide, by decide, ?_⟩
  obtain ⟨c, hrun, h⟩ := turns_move_rigid_bodies (by decide) rightThenUp
  exact ⟨c, hrun, h .corner 0 ⟨2, 2, 2⟩ (by decide)⟩

end CubeLang
