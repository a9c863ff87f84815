import CubeLang.Notation.Default
import Mathlib.Data.Bool.AllAny

/-!
# Groups of layers and their moves

Every group of layers of the built-in notation is in one of ten families, which say what its label
and its layers are. A group has one move for each of the six faces and for each of two angles.
-/

set_option autoImplicit false

namespace CubeLang.Notation

open LayerMask

variable {n : Nat} {g : LayerGroup} {e : String × Move}

/-! ## Groups -/

/-- The groups of layers, family by family. -/
inductive InFamily (n : Nat) : LayerGroup → Prop
  | face : InFamily n ⟨"", single 0⟩
  | cube : InFamily n ⟨"C", all n⟩
  | mid {g : LayerGroup} {k : Nat} (hk : 1 ≤ k ∧ k ≤ n - 2)
      (hg : g ∈ numbered "M" 1 (middleBlock n) k) : InFamily n g
  | wide (hn : 2 < n) : InFamily n ⟨"W", block 1 (n - 2)⟩
  | tier {g : LayerGroup} {k : Nat} (hk : 1 ≤ k ∧ k ≤ n) (hg : g ∈ numbered "T" 2 (block 0) k) :
      InFamily n g
  | layer {g : LayerGroup} {k : Nat} (hk : 1 ≤ k ∧ k ≤ n - 1)
      (hg : g ∈ numbered "N" 2 (fun k => single (k - 1)) k) : InFamily n g
  | layerRange {r : Nat × Nat} (hr : 2 ≤ r.1 ∧ r.1 ≤ r.2 ∧ r.2 ≤ n - 1) :
      InFamily n ⟨s!"N{r.1}-{r.2}", block (r.1 - 1) (r.2 + 1 - r.1)⟩
  | verge {g : LayerGroup} {k : Nat} (hk : 2 ≤ k ∧ k ≤ n - 1)
      (hg : g ∈ numbered "V" 2 (block 1) k) : InFamily n g
  | slice {g : LayerGroup} {k : Nat} (hk : 1 ≤ k ∧ k ≤ (n - 1) / 2)
      (hg : g ∈ numbered "S" 1 (fun k => complement n (block k (n - 2 * k))) k) : InFamily n g
  | sliceRange {r : Nat × Nat} (hr : 2 ≤ r.1 ∧ r.1 ≤ r.2 ∧ r.2 ≤ n - 1) :
      InFamily n ⟨s!"S{r.1}-{r.2}", complement n (block (r.1 - 1) (r.2 + 1 - r.1))⟩

theorem mem_numbers_iff {first last k : Nat} : k ∈ numbers first last ↔ first ≤ k ∧ k ≤ last := by
  rw [numbers, List.mem_range'_1]
  omega

theorem mem_numbers {first last k : Nat} (h : k ∈ numbers first last) : first ≤ k ∧ k ≤ last :=
  mem_numbers_iff.mp h

theorem mem_innerRanges_iff {r : Nat × Nat} :
    r ∈ innerRanges n ↔ (2 ≤ r.1 ∧ r.1 ≤ n - 2) ∧ r.1 ≤ r.2 ∧ r.2 ≤ n - 1 := by
  unfold innerRanges
  rw [List.mem_flatMap]
  constructor
  · rintro ⟨first, hfirst, h⟩
    obtain ⟨last, hlast, rfl⟩ := List.mem_map.mp h
    exact ⟨mem_numbers hfirst, mem_numbers hlast⟩
  · rintro ⟨hfirst, hlast⟩
    exact ⟨r.1, mem_numbers_iff.mpr hfirst, List.mem_map.mpr ⟨r.2, mem_numbers_iff.mpr hlast, rfl⟩⟩

theorem mem_innerRanges {r : Nat × Nat} (h : r ∈ innerRanges n) :
    2 ≤ r.1 ∧ r.1 ≤ r.2 ∧ r.2 ≤ n - 1 :=
  have hr := mem_innerRanges_iff.mp h
  ⟨hr.1.1, hr.2⟩

/-- Every group is in a family. -/
theorem inFamily_of_mem (h : g ∈ layerGroups n) : InFamily n g := by
  unfold layerGroups at h
  simp only [List.mem_append, List.mem_cons, List.not_mem_nil, or_false, List.mem_flatMap,
    List.mem_map, List.mem_ite_nil_right] at h
  rcases h with ((((((((rfl | rfl) | ⟨k, hk, h⟩) | ⟨hn, rfl⟩) | ⟨k, hk, h⟩) | ⟨k, hk, h⟩) |
    ⟨r, hr, rfl⟩) | ⟨k, hk, h⟩) | ⟨k, hk, h⟩) | ⟨r, hr, rfl⟩
  · exact .face
  · exact .cube
  · exact .mid (mem_numbers hk) h
  · exact .wide hn
  · exact .tier (mem_numbers hk) h
  · exact .layer (mem_numbers hk) h
  · exact .layerRange (mem_innerRanges hr)
  · exact .verge (mem_numbers hk) h
  · exact .slice (mem_numbers hk) h
  · exact .sliceRange (mem_innerRanges hr)

/-- A group with a number has the layers for it and the short label or the one with the number. -/
theorem of_mem_numbered {letter : String} {short k : Nat} {mask : Nat → Nat}
    (h : g ∈ numbered letter short mask k) :
    g.mask = mask k ∧ (k = short ∧ g.label = letter ∨ g.label = letter ++ toString k) := by
  unfold numbered at h
  rcases List.mem_append.mp h with h | h
  · obtain ⟨hshort, h⟩ := List.mem_ite_nil_right.mp h
    obtain rfl := List.mem_singleton.mp h
    exact ⟨rfl, Or.inl ⟨hshort, rfl⟩⟩
  · obtain rfl := List.mem_singleton.mp h
    exact ⟨rfl, Or.inr rfl⟩

/-! ## Moves -/

/-- The letters of the faces. -/
def faceLetters : List Char := ['R', 'U', 'F', 'L', 'D', 'B']

/-- The move of a group of layers that is named by the letter of a face. -/
def faceMove (n mask : Nat) (angle : Int) : Char → Move
  | 'R' => ⟨n, 0, reverse mask n, angle⟩
  | 'U' => ⟨n, 1, reverse mask n, angle⟩
  | 'F' => ⟨n, 2, reverse mask n, angle⟩
  | 'L' => ⟨n, 0, mask, -angle⟩
  | 'D' => ⟨n, 1, mask, -angle⟩
  | _ => ⟨n, 2, mask, -angle⟩

/-- The token of the move of a group by the letter of a face, with the mark of an angle behind it. -/
def faceToken (label : String) (face : Char) (mark : String) : String :=
  label ++ String.singleton face ++ mark

theorem toList_faceToken (label : String) (face : Char) (mark : String) :
    (faceToken label face mark).toList = label.toList ++ face :: mark.toList := by
  simp [faceToken, String.toList_append]

/-- The moves of a group are those of the six faces. -/
theorem groupMoves_eq (n : Nat) (angle : Int) (mark : String) (g : LayerGroup) :
    groupMoves n angle mark g = faceLetters.map fun face =>
      (faceToken g.label face mark, faceMove n g.mask angle face) := rfl

/-- The angles of the moves and the marks behind the letters of the faces. -/
def turnMarks : List (Int × String) := [(1, ""), (2, "2")]

/-- The moves of the notation are those of the groups by both angles. -/
theorem mem_defaultMoves_iff : e ∈ defaultMoves n ↔ ∃ g ∈ layerGroups n, ∃ m ∈ turnMarks,
    ∃ face ∈ faceLetters, (faceToken g.label face m.2, faceMove n g.mask m.1 face) = e := by
  unfold defaultMoves
  simp only [groupMoves_eq, List.mem_append, List.mem_flatMap, List.mem_map]
  constructor
  · rintro (⟨g, hg, h⟩ | ⟨g, hg, h⟩)
    · exact ⟨g, hg, (1, ""), by decide, h⟩
    · exact ⟨g, hg, (2, "2"), by decide, h⟩
  · rintro ⟨g, hg, m, hm, h⟩
    simp only [turnMarks, List.mem_cons, List.not_mem_nil, or_false] at hm
    rcases hm with rfl | rfl
    · exact Or.inl ⟨g, hg, h⟩
    · exact Or.inr ⟨g, hg, h⟩

end CubeLang.Notation
