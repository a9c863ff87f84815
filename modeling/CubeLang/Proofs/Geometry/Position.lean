import CubeLang.Cube.Turn
import CubeLang.Proofs.Geometry.Offset
import CubeLang.Proofs.Geometry.Rotation
import Mathlib.Data.List.GetD
import Mathlib.Tactic.IntervalCases
import Mathlib.Tactic.SplitIfs

/-!
# Where the parts are

The positions of a kind of part are the points of the grid that point out of the cube in one of the
directions of the kind: those of the corners, of the edges or of the faces of the cube. Since a
rotation carries the grid and these directions to themselves, it carries positions to positions.
Everything here holds for every number of layers from two on.
-/

set_option autoImplicit false

namespace CubeLang

open Turn

/-- The number of directions in which parts of a kind point out of the cube. -/
def PartKind.directions : PartKind → Nat
  | .corner => 8
  | .edge => 12
  | .side => 6

/-- The direction in which the location of a part points out of the cube. -/
def direction (kind : PartKind) (i : Nat) : Vec := facesPosition 2 (locationFaces kind i)

/-- Whether a coordinate is on the outside of the cube, and on which side. -/
def outer (n : Nat) (w : Int) : Int :=
  if w = n - 1 then 1 else if w = -(n - 1 : Int) then -1 else 0

/-- The direction in which a point of the grid points out of the cube. -/
def outward (n : Nat) (v : Vec) : Vec := v.map (outer n)

/-- A coordinate of a part. -/
def OnGrid (n : Nat) (w : Int) : Prop :=
  -(n - 1 : Int) ≤ w ∧ w ≤ n - 1 ∧ (w + (n - 1)) % 2 = 0

/-- A point of the grid that points out of the cube in a given direction. -/
def PointsOut (n : Nat) (v d : Vec) : Prop :=
  (∀ a : Axis, OnGrid n (a.component v)) ∧ outward n v = d

section

variable {n : Nat}

@[simp] theorem outer_last : outer n (n - 1) = 1 := by simp [outer]

@[simp] theorem outer_first (hn : 2 ≤ n) : outer n (1 - n) = -1 := by
  unfold outer
  rw [if_neg (by omega), if_pos (by omega)]

theorem outer_of_inner {w : Int} (h : Inner n w) : outer n w = 0 := by
  obtain ⟨hlow, hhigh, -⟩ := h
  unfold outer
  rw [if_neg (by omega), if_neg (by omega)]

theorem outer_neg (hn : 2 ≤ n) (w : Int) : outer n (-w) = -outer n w := by
  unfold outer
  split_ifs <;> omega

/-- A coordinate of the grid is at one of the ends or inside. -/
theorem OnGrid.cases {w : Int} (h : OnGrid n w) :
    (w = n - 1 ∧ outer n w = 1) ∨ (w = 1 - n ∧ outer n w = -1) ∨
      (Inner n w ∧ outer n w = 0) := by
  obtain ⟨hlow, hhigh, hparity⟩ := h
  unfold Inner outer
  split_ifs <;> omega

/-- The outermost coordinates and those inside are coordinates of parts. -/
theorem onGrid_of_inner {w : Int} (h : Inner n w) : OnGrid n w := by
  unfold Inner at h
  unfold OnGrid
  omega

end

/-! ## The lists of positions -/

section

variable {n : Nat}

/-- The position of an edge part at a distance from the middle of the edge. -/
def edgePosition (n : Nat) (faces : List Face) (w : Int) : Vec :=
  (facesPosition n faces).add ((edgeAxis faces).unit.scale w)

/-- What stands at an index of the edge positions. -/
theorem getElem?_edgePositions (i : Nat) :
    (edgePositions n)[i]? = ((List.range (n - 2))[i / 12]?).bind fun round =>
      (edgeFaces[i % 12]?).map fun faces => edgePosition n faces (wingOffset n round) := by
  unfold edgePositions
  rw [@getElem?_blocks _ _ _ 12 (by decide) (by intro; rw [List.length_map]; rfl)]
  simp only [List.getElem?_map]
  rfl

/-- What stands at an index of the side positions. -/
theorem getElem?_sidePositions (i : Nat) :
    (sidePositions n)[i]? = ((sideOffsets n)[i / 6]?).bind fun place =>
      (Face.all[i % 6]?).map fun face => sidePosition n face place := by
  unfold sidePositions
  rw [@getElem?_blocks _ _ _ 6 (by decide) (by intro; rw [List.length_map]; rfl)]
  simp only [List.getElem?_map]

/-- There are as many positions as parts. -/
theorem length_positions (hn : 2 ≤ n) (kind : PartKind) :
    (positions n kind).length = kind.count n := by
  cases kind with
  | corner => rfl
  | edge =>
    have h12 : edgeFaces.length = 12 := rfl
    simp [positions, edgePositions, PartKind.count, List.length_flatMap, h12, Nat.mul_comm]
  | side =>
    have h6 : Face.all.length = 6 := rfl
    simp [positions, sidePositions, PartKind.count, List.length_flatMap, h6,
      length_sideOffsets hn, Nat.mul_comm]

/-- A corner points out in all its components, as its faces do. -/
theorem pointsOut_facesPosition (hn : 2 ≤ n) {faces : List Face} (h : faces ∈ cornerFaces) :
    PointsOut n (facesPosition n faces) (facesPosition 2 faces) := by
  simp only [cornerFaces, List.mem_cons, List.not_mem_nil, or_false] at h
  constructor
  · intro a
    unfold OnGrid
    rcases h with rfl | rfl | rfl | rfl | rfl | rfl | rfl | rfl <;> cases a <;>
      simp [facesPosition, Vec.add, Vec.scale, Face.normal, Axis.component] <;> omega
  · rcases h with rfl | rfl | rfl | rfl | rfl | rfl | rfl | rfl <;>
      simp [facesPosition, outward, Vec.map, Vec.add, Vec.scale, Face.normal, hn]

/-- An edge part points out as its faces do. -/
theorem pointsOut_edgePosition (hn : 2 ≤ n) {faces : List Face} (h : faces ∈ edgeFaces) {w : Int}
    (hw : Inner n w) : PointsOut n (edgePosition n faces w) (facesPosition 2 faces) := by
  have hzero := outer_of_inner hw
  have hgrid := onGrid_of_inner hw
  simp only [edgeFaces, List.mem_cons, List.not_mem_nil, or_false] at h
  constructor
  · intro a
    unfold OnGrid at *
    rcases h with rfl | rfl | rfl | rfl | rfl | rfl | rfl | rfl | rfl | rfl | rfl | rfl <;>
      cases a <;>
      simp [edgePosition, edgeAxis, Axis.all, Axis.unit, Face.axis, facesPosition, Vec.add,
        Vec.scale, Face.normal, Axis.component] <;> omega
  · rcases h with rfl | rfl | rfl | rfl | rfl | rfl | rfl | rfl | rfl | rfl | rfl | rfl <;>
      simp [edgePosition, edgeAxis, Axis.all, Axis.unit, Face.axis, facesPosition, outward,
        Vec.map, Vec.add, Vec.scale, Face.normal, hn, hzero]

/-- A side part points out as its face does. -/
theorem pointsOut_sidePosition (hn : 2 ≤ n) (face : Face) {p q : Int} (hp : Inner n p)
    (hq : Inner n q) : PointsOut n (sidePosition n face (p, q)) face.normal := by
  have hp₀ := outer_of_inner hp
  have hq₀ := outer_of_inner hq
  have hp₁ : outer n (-p) = 0 := by rw [outer_neg hn, hp₀]; rfl
  have hq₁ : outer n (-q) = 0 := by rw [outer_neg hn, hq₀]; rfl
  constructor
  · intro a
    unfold OnGrid
    unfold Inner at hp hq
    cases face <;> cases a <;>
      simp [sidePosition, Vec.add, Vec.scale, Vec.cross, Face.normal, Face.reference,
        Face.clockwise, Axis.component] <;> omega
  · cases face <;>
      simp [sidePosition, outward, Vec.map, Vec.add, Vec.scale, Vec.cross, Face.normal,
        Face.reference, Face.clockwise, hn, hp₀, hp₁, hq₀, hq₁]

/-- The direction of a location repeats itself after all directions of the kind. -/
theorem direction_mod (kind : PartKind) {i : Nat} (h : i < kind.count n) :
    direction kind (i % kind.directions) = direction kind i := by
  cases kind with
  | corner => rw [Nat.mod_eq_of_lt (show i < PartKind.directions .corner from h)]
  | edge => simp [direction, locationFaces, PartKind.directions]
  | side => simp [direction, locationFaces, PartKind.directions, Face.ofIndex]

theorem direction_side (i : Nat) : direction .side i = (Face.ofIndex i).normal := by
  have h : ∀ face : Face, facesPosition 2 [face] = face.normal := by
    intro face
    cases face <;> rfl
  exact h _

/-- The faces in their order are those of the numbers. -/
theorem ofIndex_of_getElem? {i : Nat} {face : Face} (h : Face.all[i % 6]? = some face) :
    Face.ofIndex i = face := by
  have hi : i % 6 < 6 := Nat.mod_lt i (by decide)
  unfold Face.ofIndex
  generalize i % 6 = k at h hi
  interval_cases k <;> simp_all [Face.all]

/-- A part points out of the cube in the direction of its location. -/
theorem pointsOut_of_getElem? (hn : 2 ≤ n) {kind : PartKind} {i : Nat} {v : Vec}
    (h : (positions n kind)[i]? = some v) : PointsOut n v (direction kind i) := by
  cases kind with
  | corner =>
    rw [positions, cornerPositions, List.getElem?_map, Option.map_eq_some_iff] at h
    obtain ⟨faces, hfaces, rfl⟩ := h
    have hdirection : direction .corner i = facesPosition 2 faces := by
      simp [direction, locationFaces, List.getD, hfaces]
    rw [hdirection]
    exact pointsOut_facesPosition hn (List.mem_of_getElem? hfaces)
  | edge =>
    rw [positions, getElem?_edgePositions, Option.bind_eq_some_iff] at h
    obtain ⟨round, hround, h⟩ := h
    obtain ⟨faces, hfaces, rfl⟩ := Option.map_eq_some_iff.mp h
    have hdirection : direction .edge i = facesPosition 2 faces := by
      simp [direction, locationFaces, List.getD, hfaces]
    have hround : round < n - 2 := List.mem_range.mp (List.mem_of_getElem? hround)
    rw [hdirection]
    exact pointsOut_edgePosition hn (List.mem_of_getElem? hfaces) (inner_wingOffset hround)
  | side =>
    rw [positions, getElem?_sidePositions, Option.bind_eq_some_iff] at h
    obtain ⟨⟨p, q⟩, hplace, h⟩ := h
    obtain ⟨face, hface, rfl⟩ := Option.map_eq_some_iff.mp h
    obtain ⟨hp, hq⟩ := (mem_sideOffsets hn).mp (List.mem_of_getElem? hplace)
    rw [direction_side, ofIndex_of_getElem? hface]
    exact pointsOut_sidePosition hn face hp hq

theorem eq_of_outer {w : Int} (h : OnGrid n w) :
    (outer n w = 1 → w = n - 1) ∧ (outer n w = -1 → w = 1 - n) ∧ (outer n w = 0 → Inner n w) := by
  rcases h.cases with ⟨hw, h'⟩ | ⟨hw, h'⟩ | ⟨hw, h'⟩ <;> simp_all

/-- Only a corner points out as its faces do. -/
theorem eq_facesPosition {faces : List Face} (h : faces ∈ cornerFaces) {v : Vec}
    (hv : PointsOut n v (facesPosition 2 faces)) : v = facesPosition n faces := by
  obtain ⟨hgrid, hout⟩ := hv
  obtain ⟨hx, hx', -⟩ := eq_of_outer (hgrid .x)
  obtain ⟨hy, hy', -⟩ := eq_of_outer (hgrid .y)
  obtain ⟨hz, hz', -⟩ := eq_of_outer (hgrid .z)
  simp only [cornerFaces, List.mem_cons, List.not_mem_nil, or_false] at h
  rcases h with rfl | rfl | rfl | rfl | rfl | rfl | rfl | rfl <;>
    simp [facesPosition, outward, Vec.map, Vec.add, Vec.scale, Face.normal] at hout <;>
    apply Vec.ext <;>
    simp_all [facesPosition, Vec.add, Vec.scale, Face.normal, Axis.component]

/-- Only the parts of an edge point out as its faces do. -/
theorem exists_edgePosition {faces : List Face} (h : faces ∈ edgeFaces) {v : Vec}
    (hv : PointsOut n v (facesPosition 2 faces)) :
    ∃ w, Inner n w ∧ v = edgePosition n faces w := by
  obtain ⟨hgrid, hout⟩ := hv
  obtain ⟨hx, hx', hx₀⟩ := eq_of_outer (hgrid .x)
  obtain ⟨hy, hy', hy₀⟩ := eq_of_outer (hgrid .y)
  obtain ⟨hz, hz', hz₀⟩ := eq_of_outer (hgrid .z)
  refine ⟨(edgeAxis faces).component v, ?_⟩
  simp only [edgeFaces, List.mem_cons, List.not_mem_nil, or_false] at h
  rcases h with rfl | rfl | rfl | rfl | rfl | rfl | rfl | rfl | rfl | rfl | rfl | rfl <;>
    simp [facesPosition, outward, Vec.map, Vec.add, Vec.scale, Face.normal] at hout <;>
    refine ⟨?_, Vec.ext ?_ ?_ ?_⟩ <;>
    simp_all [edgePosition, edgeAxis, Axis.all, Axis.unit, Face.axis, facesPosition, Vec.add,
      Vec.scale, Face.normal, Axis.component]

/-- Only the parts of a face point out as the face does. -/
theorem exists_sidePosition (face : Face) {v : Vec} (hv : PointsOut n v face.normal) :
    ∃ p q, Inner n p ∧ Inner n q ∧ v = sidePosition n face (p, q) := by
  obtain ⟨hgrid, hout⟩ := hv
  obtain ⟨hx, hx', hx₀⟩ := eq_of_outer (hgrid .x)
  obtain ⟨hy, hy', hy₀⟩ := eq_of_outer (hgrid .y)
  obtain ⟨hz, hz', hz₀⟩ := eq_of_outer (hgrid .z)
  refine ⟨face.reference.dot v, (face.clockwise face.reference).dot v, ?_⟩
  have hneg : ∀ {w : Int}, Inner n w → Inner n (-w) := by
    unfold Inner
    omega
  cases face <;>
    simp [outward, Vec.map, Face.normal] at hout <;>
    refine ⟨?_, ?_, Vec.ext ?_ ?_ ?_⟩ <;>
    simp_all [sidePosition, Vec.add, Vec.scale, Vec.cross, Vec.dot, Face.normal, Face.reference,
      Face.clockwise, Axis.component]

/-- The positions of a kind are the points of the grid that point out of the cube as the parts of
the kind do. -/
theorem mem_positions (hn : 2 ≤ n) {kind : PartKind} {v : Vec} :
    v ∈ positions n kind ↔ ∃ i < kind.directions, PointsOut n v (direction kind i) := by
  constructor
  · intro h
    obtain ⟨i, hi⟩ := List.mem_iff_getElem?.mp h
    have hlt : i < kind.count n := by
      rw [← length_positions hn]
      exact (List.getElem?_eq_some_iff.mp hi).1
    refine ⟨i % kind.directions, Nat.mod_lt _ ?_, ?_⟩
    · cases kind <;> decide
    · rw [direction_mod kind hlt]
      exact pointsOut_of_getElem? hn hi
  · rintro ⟨i, hi, hv⟩
    cases kind with
    | corner =>
      have hfaces : cornerFaces.getD i [] ∈ cornerFaces := by
        rw [List.getD_eq_getElem _ _ hi]
        exact List.getElem_mem _
      exact List.mem_map.mpr ⟨_, hfaces, (eq_facesPosition hfaces hv).symm⟩
    | edge =>
      have hfaces : edgeFaces.getD (i % 12) [] ∈ edgeFaces := by
        have hlt : i % 12 < edgeFaces.length := Nat.mod_lt i (by decide)
        rw [List.getD_eq_getElem _ _ hlt]
        exact List.getElem_mem _
      obtain ⟨w, hw, rfl⟩ := exists_edgePosition hfaces hv
      obtain ⟨round, hround, rfl⟩ := exists_wingOffset hw
      exact List.mem_flatMap.mpr
        ⟨round, List.mem_range.mpr hround, List.mem_map.mpr ⟨_, hfaces, rfl⟩⟩
    | side =>
      rw [direction_side] at hv
      obtain ⟨p, q, hp, hq, rfl⟩ := exists_sidePosition _ hv
      refine List.mem_flatMap.mpr ⟨(p, q), mem_sideOffsets_of_inner hp hq, ?_⟩
      refine List.mem_map.mpr ⟨_, ?_, rfl⟩
      cases Face.ofIndex i <;> decide

/-- A rotation carries the directions of a kind to each other. -/
theorem exists_direction_apply (kind : PartKind) {m : Matrix} (hm : m.IsRotation) {i : Nat}
    (hi : i < kind.directions) :
    ∃ j < kind.directions, m.apply (direction kind i) = direction kind j
    := by
  have all : ∀ kind ∈ PartKind.all, ∀ m ∈ Matrix.rotations, ∀ i < kind.directions,
      ∃ j < kind.directions, m.apply (direction kind i) = direction kind j := by decide +kernel
  exact all kind (by cases kind <;> decide) m hm i hi

/-- A rotation carries what points out of the cube to what points out in the rotated direction. -/
theorem PointsOut.apply (hn : 2 ≤ n) {m : Matrix} (hm : m.IsRotation) {v d : Vec}
    (h : PointsOut n v d) : PointsOut n (m.apply v) (m.apply d) := by
  obtain ⟨hgrid, rfl⟩ := h
  constructor
  · refine hm.forall_component ?_ hgrid
    unfold OnGrid
    omega
  · exact (hm.apply_map (outer_neg hn) v).symm

/-- A rotation carries positions to positions. -/
theorem apply_mem_positions (hn : 2 ≤ n) {kind : PartKind} {m : Matrix} (hm : m.IsRotation)
    {v : Vec} (h : v ∈ positions n kind) : m.apply v ∈ positions n kind := by
  obtain ⟨i, hi, hv⟩ := (mem_positions hn).mp h
  obtain ⟨j, hj, hij⟩ := exists_direction_apply kind hm hi
  refine (mem_positions hn).mpr ⟨j, hj, ?_⟩
  rw [← hij]
  exact hv.apply hn hm

/-! ## No position comes twice -/

/-- A part's distance from the middle of its edge is given by its position. -/
theorem component_edgePosition {faces : List Face} (h : faces ∈ edgeFaces) (w : Int) :
    (edgeAxis faces).component (edgePosition n faces w) = w := by
  simp only [edgeFaces, List.mem_cons, List.not_mem_nil, or_false] at h
  rcases h with rfl | rfl | rfl | rfl | rfl | rfl | rfl | rfl | rfl | rfl | rfl | rfl <;>
    simp [edgePosition, edgeAxis, Axis.all, Axis.unit, Face.axis, facesPosition, Vec.add,
      Vec.scale, Face.normal, Axis.component]

/-- A part's place on its face is given by its position. -/
theorem dot_sidePosition (face : Face) (p q : Int) :
    face.reference.dot (sidePosition n face (p, q)) = p ∧
      (face.clockwise face.reference).dot (sidePosition n face (p, q)) = q := by
  cases face <;>
    simp [sidePosition, Vec.add, Vec.scale, Vec.cross, Vec.dot, Face.normal, Face.reference,
      Face.clockwise]

theorem normal_injective {face other : Face} (h : face.normal = other.normal) : face = other := by
  cases face <;> cases other <;> simp_all [Face.normal]

/-- No edge comes twice, and each can be told from the direction in which it points out. -/
theorem edgeFaces_injective {faces other : List Face} (h : faces ∈ edgeFaces)
    (h' : other ∈ edgeFaces) (heq : facesPosition 2 faces = facesPosition 2 other) :
    faces = other := by
  have all : ∀ faces ∈ edgeFaces, ∀ other ∈ edgeFaces,
      facesPosition 2 faces = facesPosition 2 other → faces = other := by decide
  exact all faces h other h' heq

/-- No position of an edge part comes twice. -/
theorem nodup_edgePositions (hn : 2 ≤ n) : (edgePositions n).Nodup := by
  have hpairs : edgePositions n = (List.range (n - 2) ×ˢ edgeFaces).map fun pair =>
      edgePosition n pair.2 (wingOffset n pair.1) := by
    simp [edgePositions, edgePosition, SProd.sprod, List.product, List.map_flatMap,
      Function.comp_def]
  rw [hpairs]
  refine List.Nodup.map_on ?_ (List.nodup_range.product (by decide))
  rintro ⟨round, faces⟩ h ⟨round', other⟩ h' heq
  obtain ⟨hround, hfaces⟩ := List.mem_product.mp h
  obtain ⟨hround', hother⟩ := List.mem_product.mp h'
  simp only at heq
  have hout := congrArg (outward n) heq
  rw [(pointsOut_edgePosition hn hfaces (inner_wingOffset (List.mem_range.mp hround))).2,
    (pointsOut_edgePosition hn hother (inner_wingOffset (List.mem_range.mp hround'))).2] at hout
  obtain rfl := edgeFaces_injective hfaces hother hout
  have hoffset := congrArg (edgeAxis faces).component heq
  rw [component_edgePosition hfaces, component_edgePosition hfaces] at hoffset
  rw [wingOffset_injective hoffset]

/-- No position of a side part comes twice. -/
theorem nodup_sidePositions (hn : 2 ≤ n) : (sidePositions n).Nodup := by
  have hpairs : sidePositions n = (sideOffsets n ×ˢ Face.all).map fun pair =>
      sidePosition n pair.2 pair.1 := by
    simp [sidePositions, SProd.sprod, List.product, List.map_flatMap, Function.comp_def]
  rw [hpairs]
  refine List.Nodup.map_on ?_ ((nodup_sideOffsets hn).product (by decide))
  rintro ⟨⟨p, q⟩, face⟩ h ⟨⟨p', q'⟩, other⟩ h' heq
  obtain ⟨hp, hq⟩ := (mem_sideOffsets hn).mp (List.mem_product.mp h).1
  obtain ⟨hp', hq'⟩ := (mem_sideOffsets hn).mp (List.mem_product.mp h').1
  simp only at heq
  have hout := congrArg (outward n) heq
  rw [(pointsOut_sidePosition hn face hp hq).2, (pointsOut_sidePosition hn other hp' hq').2] at hout
  obtain rfl := normal_injective hout
  have hplace := dot_sidePosition (n := n) face p q
  have hplace' := dot_sidePosition (n := n) face p' q'
  rw [heq, hplace'.1, hplace'.2] at hplace
  rw [hplace.1, hplace.2]

/-- No position comes twice among those of a kind. -/
theorem nodup_positions (hn : 2 ≤ n) (kind : PartKind) : (positions n kind).Nodup := by
  cases kind with
  | corner =>
    refine List.Nodup.map_on ?_ (by decide)
    intro faces h other h' heq
    have all : ∀ faces ∈ cornerFaces, ∀ other ∈ cornerFaces,
        facesPosition 2 faces = facesPosition 2 other → faces = other := by decide
    have hout := congrArg (outward n) heq
    rw [(pointsOut_facesPosition hn h).2, (pointsOut_facesPosition hn h').2] at hout
    exact all faces h other h' hout
  | edge => exact nodup_edgePositions hn
  | side => exact nodup_sidePositions hn

/-! ## Locations -/

/-- The position of a location. -/
def position (n : Nat) (kind : PartKind) (i : Nat) : Vec :=
  (positions n kind).getD i ⟨0, 0, 0⟩

theorem getElem?_positions (hn : 2 ≤ n) {kind : PartKind} {i : Nat} (hi : i < kind.count n) :
    (positions n kind)[i]? = some (position n kind i) := by
  rw [← length_positions hn] at hi
  simp [position, List.getD, hi]

theorem position_mem (hn : 2 ≤ n) {kind : PartKind} {i : Nat} (hi : i < kind.count n) :
    position n kind i ∈ positions n kind :=
  List.mem_of_getElem? (getElem?_positions hn hi)

/-- A part points out of the cube in the direction of its location. -/
theorem pointsOut_position (hn : 2 ≤ n) {kind : PartKind} {i : Nat} (hi : i < kind.count n) :
    PointsOut n (position n kind i) (direction kind i) :=
  pointsOut_of_getElem? hn (getElem?_positions hn hi)

theorem locationAt_lt (hn : 2 ≤ n) {kind : PartKind} {v : Vec} (h : v ∈ positions n kind) :
    locationAt n kind v < kind.count n := by
  rw [← length_positions hn]
  exact List.idxOf_lt_length_of_mem h

theorem position_locationAt {kind : PartKind} {v : Vec} (h : v ∈ positions n kind) :
    position n kind (locationAt n kind v) = v := by
  unfold position locationAt
  rw [List.getD_eq_getElem _ _ (List.idxOf_lt_length_of_mem h)]
  exact List.getElem_idxOf _

/-- The location at the position of a location is that location. -/
theorem locationAt_position (hn : 2 ≤ n) {kind : PartKind} {i : Nat} (hi : i < kind.count n) :
    locationAt n kind (position n kind i) = i := by
  rw [← length_positions hn] at hi
  unfold position locationAt
  rw [List.getD_eq_getElem _ _ hi]
  exact (nodup_positions hn kind).idxOf_getElem i hi

theorem position_injective (hn : 2 ≤ n) {kind : PartKind} {i j : Nat} (hi : i < kind.count n)
    (hj : j < kind.count n) (h : position n kind i = position n kind j) : i = j := by
  rw [← locationAt_position hn hi, h, locationAt_position hn hj]

/-- A rotation carries every location of a kind to a location. -/
theorem exists_location (hn : 2 ≤ n) {kind : PartKind} {m : Matrix} (hm : m.IsRotation) {i : Nat}
    (hi : i < kind.count n) :
    ∃ j < kind.count n, m.apply (position n kind i) = position n kind j := by
  have h := apply_mem_positions hn hm (position_mem hn hi)
  exact ⟨_, locationAt_lt hn h, (position_locationAt h).symm⟩

end

end CubeLang
