import CubeLang.Proofs.Geometry.Position

/-!
# Places from the middle outward

The places on an edge and on a face can be listed by growing a list from the middle outward: an edge
by two places at a time, one on each side, until it has as many as there are layers inside; a face
ring by ring, each with an orbit through its corner and one through the coordinate of every smaller
ring, on both sides, and of the middle if there is one. The lists grown are those that the positions
of the parts are made of, for every number of layers.
-/

set_option autoImplicit false

namespace CubeLang

variable {n k : Nat}

/-! ## Edges -/

/-- Adds the two places at a distance and those further out, until there are `count` places. -/
def growWings (n count distance : Nat) (places : List Int) : List Int :=
  if places.length < count then
    let place : Int := if n % 2 = 1 then 2 * distance else 2 * distance + 1
    growWings n count (distance + 1) (places ++ [-place, place])
  else places
termination_by count - places.length
decreasing_by
  rw [List.length_append]
  exact Nat.sub_lt_sub_left ‹_› (Nat.lt_add_of_pos_right (Nat.zero_lt_succ 1))

/-- The places on an edge, as they are grown: the middle, if there is one, and then two by two. -/
def grownWings (n : Nat) : List Int :=
  if n % 2 = 1 then growWings n (n - 2) 1 [0] else growWings n (n - 2) 0 []

/-- Two rounds are at the same distance, on either side. -/
theorem wingOffset_pair (h : (n + k) % 2 = 0) :
    wingOffset n k = -(k + 1 : Int) ∧ wingOffset n (k + 1) = k + 1 := by
  unfold wingOffset
  rw [if_pos h, if_neg (by omega)]
  exact ⟨rfl, by omega⟩

/-- What has grown to the places of some rounds goes on with the next two rounds. The number of
rounds has the parity of the layer count, since they come in pairs from the middle on. -/
theorem growWings_eq {count distance : Nat} (hparity : (n + k) % 2 = 0) (hk : k ≤ count)
    (hcount : (n + count) % 2 = 0) (hdistance : k + n % 2 = 2 * distance) :
    growWings n count distance ((List.range k).map (wingOffset n)) =
      (List.range count).map (wingOffset n) := by
  -- By induction on the places still missing, of which each step adds two.
  induction hrest : count - k using Nat.strong_induction_on generalizing k distance with
  | h rest ih =>
    rw [growWings, List.length_map, List.length_range]
    split
    · have hplace : (if n % 2 = 1 then 2 * (distance : Int) else 2 * distance + 1) = k + 1 := by
        split <;> omega
      obtain ⟨hleft, hright⟩ := wingOffset_pair hparity
      have hgrown : (List.range k).map (wingOffset n) ++ [-(k + 1 : Int), k + 1] =
          (List.range (k + 2)).map (wingOffset n) := by
        rw [List.range_succ, List.range_succ, List.map_append, List.map_append,
          List.append_assoc, ← hleft, ← hright]
        rfl
      simp only [hplace]
      rw [hgrown]
      exact ih (count - (k + 2)) (by omega) (by omega) (by omega) (by omega) rfl
    · have heq : k = count := by omega
      rw [heq]

/-- The places grown on an edge are those of the rounds. -/
theorem grownWings_eq (hn : 2 ≤ n) : grownWings n = (List.range (n - 2)).map (wingOffset n) := by
  unfold grownWings
  split
  · have hmiddle : [(0 : Int)] = (List.range 1).map (wingOffset n) := by
      have hodd : n % 2 = 1 := ‹_›
      simp [wingOffset, hodd]
    rw [hmiddle]
    exact growWings_eq (by omega) (by omega) (by omega) (by omega)
  · exact growWings_eq (k := 0) (by omega) (by omega) (by omega) (by omega)

/-! ## Faces -/

/-- Places that follow each other by quarter turns. -/
def quarterTurns : (turns : Nat) → (place : Int × Int) → List (Int × Int)
  | 0, _ => []
  | turns + 1, place => place :: quarterTurns turns (-place.2, place.1)

/-- What has grown on a face: the coordinates for further orbits, and the places. -/
structure Grown where
  minors : List Int
  places : List (Int × Int)

/-- Adds the orbits of a ring. -/
def Grown.addRing (g : Grown) (ring : Int) : Grown where
  minors := g.minors ++ [ring, -ring]
  places := g.places ++ ((ring, ring) :: g.minors.map fun minor => (ring, minor)).flatMap
    (quarterTurns 4)

/-- Adds every second ring inside of a bound, from one on. -/
def Grown.addRings (bound ring : Int) (g : Grown) : Grown :=
  if ring < bound then addRings bound (ring + 2) (g.addRing ring) else g
termination_by (bound - ring).toNat
decreasing_by omega

/-- The places on a face, as they are grown: the middle, if there is one, and then ring by ring. -/
def grownPlaces (n : Nat) : List (Int × Int) :=
  if n % 2 = 1 then (Grown.addRings (n - 2) 2 ⟨[0], [(0, 0)]⟩).places
  else (Grown.addRings (n - 2) 1 ⟨[], []⟩).places

theorem quarterTurns_four (p q : Int) : quarterTurns 4 (p, q) = orbit p q := by
  simp [quarterTurns, orbit]

/-- What has grown when the rings up to a number were added. -/
def grownTo (n k : Nat) : Grown where
  minors := (if n % 2 = 0 then [] else [0]) ++ ((List.range k).map (ringAt n)).flatMap fun r => [r, -r]
  places := (if n % 2 = 0 then [] else [(0, 0)]) ++ (List.range k).flatMap fun k =>
    ringOffsets n ((List.range k).map (ringAt n)) (ringAt n k)

theorem addRing_grownTo (n k : Nat) : (grownTo n k).addRing (ringAt n k) = grownTo n (k + 1) := by
  have horbits : ((ringAt n k, ringAt n k) :: (grownTo n k).minors.map fun minor =>
      (ringAt n k, minor)).flatMap (quarterTurns 4) =
        ringOffsets n ((List.range k).map (ringAt n)) (ringAt n k) := by
    rw [List.flatMap_cons, List.flatMap_map, quarterTurns_four]
    simp only [quarterTurns_four]
    rfl
  simp only [Grown.addRing, horbits]
  simp only [grownTo, List.range_succ, List.map_append, List.flatMap_append, List.append_assoc,
    List.map_singleton, List.flatMap_singleton]

/-- The rings inside of a cube are added one after the other, up to the last one. -/
theorem addRings_grownTo (hn : 2 ≤ n) (hk : k ≤ (n - 2) / 2) :
    Grown.addRings (n - 2) (ringAt n k) (grownTo n k) = grownTo n ((n - 2) / 2) := by
  -- By induction on the rings still to be added.
  induction hrest : (n - 2) / 2 - k generalizing k with
  | zero =>
    have heq : k = (n - 2) / 2 := by omega
    have hlast : ¬ringAt n k < (n : Int) - 2 := by
      unfold ringAt
      split <;> omega
    rw [Grown.addRings, if_neg hlast, heq]
  | succ rest ih =>
    have hring : ringAt n k < (n : Int) - 2 := by
      unfold ringAt
      split <;> omega
    have hnext : ringAt n k + 2 = ringAt n (k + 1) := by
      unfold ringAt
      omega
    rw [Grown.addRings, if_pos hring, addRing_grownTo, hnext]
    exact ih (by omega) (by omega)

/-- The places grown on a face are those of the side parts. -/
theorem grownPlaces_eq (hn : 2 ≤ n) : grownPlaces n = sideOffsets n := by
  have hrings := addRings_grownTo hn (Nat.zero_le ((n - 2) / 2))
  rw [sideOffsets_eq]
  unfold grownPlaces
  rcases Nat.mod_two_eq_zero_or_one n with heven | hodd
  · have hfirst : ringAt n 0 = 1 := by simp [ringAt, heven]
    have hstart : grownTo n 0 = ⟨[], []⟩ := by simp [grownTo, heven]
    rw [hfirst, hstart] at hrings
    rw [if_neg (by omega), hrings]
    rfl
  · have hfirst : ringAt n 0 = 2 := by simp [ringAt, hodd]
    have hstart : grownTo n 0 = ⟨[0], [(0, 0)]⟩ := by simp [grownTo, hodd]
    rw [hfirst, hstart] at hrings
    rw [if_pos hodd, hrings]
    rfl

/-! ## Positions -/

/-- A vector with another component along an axis. -/
def Axis.put (axis : Axis) (w : Int) (v : Vec) : Vec :=
  match axis with
  | .x => { v with x := w }
  | .y => { v with y := w }
  | .z => { v with z := w }

/-- The positions of the parts of a kind, listed from the places grown. -/
def grownPositions (n : Nat) : PartKind → List Vec
  | .corner => cornerFaces.map (facesPosition n)
  | .edge => (grownWings n).flatMap fun place => edgeFaces.map fun faces =>
      (edgeAxis faces).put place (facesPosition n faces)
  | .side => (grownPlaces n).flatMap fun place => Face.all.map fun face => sidePosition n face place

/-- The faces of an edge are across its axis, so that only the place on the edge counts there. -/
theorem put_facesPosition {faces : List Face} (h : faces ∈ edgeFaces) (w : Int) :
    (edgeAxis faces).put w (facesPosition n faces) = edgePosition n faces w := by
  simp only [edgeFaces, List.mem_cons, List.not_mem_nil, or_false] at h
  rcases h with rfl | rfl | rfl | rfl | rfl | rfl | rfl | rfl | rfl | rfl | rfl | rfl <;>
    simp [edgePosition, edgeAxis, Axis.all, Axis.unit, Axis.put, Face.axis, facesPosition, Vec.add,
      Vec.scale, Face.normal]

/-- The positions listed from the places grown are those of the parts. -/
theorem grownPositions_eq (hn : 2 ≤ n) (kind : PartKind) :
    grownPositions n kind = positions n kind := by
  cases kind with
  | corner => rfl
  | edge =>
    unfold grownPositions
    rw [grownWings_eq hn, List.flatMap_map]
    refine List.flatMap_congr fun round _ => List.map_congr_left fun faces hfaces => ?_
    exact put_facesPosition hfaces (wingOffset n round)
  | side =>
    unfold grownPositions
    rw [grownPlaces_eq hn]
    rfl

theorem length_grownPositions (hn : 2 ≤ n) (kind : PartKind) :
    (grownPositions n kind).length = kind.count n := by
  rw [grownPositions_eq hn, length_positions hn]

end CubeLang
