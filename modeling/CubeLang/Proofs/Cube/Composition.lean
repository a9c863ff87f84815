import CubeLang.Cube.Basic
import Mathlib.Data.List.Nodup
import Mathlib.Data.List.Perm.Subperm

/-!
# How arrangements compose

A valid arrangement holds every part once. Valid arrangements of one kind form a monoid under
`andThen`, with the solved arrangement as its unit, and so do the states of all three kinds of parts
together. What is done to a cube is such a state, and doing it composes.
-/

set_option autoImplicit false

namespace CubeLang

namespace Arrangement

variable {kind : PartKind} {count m : Nat} {a b c : Arrangement}

/-! ## Slots -/

theorem slot_eq_getElem {i : Nat} (h : i < a.size) : a.slot i = a[i] := by
  simp [slot, h]

theorem ext_slot (hsize : a.size = b.size) (h : ∀ i < a.size, a.slot i = b.slot i) : a = b := by
  apply Array.ext hsize
  intro i ha hb
  rw [← slot_eq_getElem ha, ← slot_eq_getElem hb]
  exact h i ha

@[simp] theorem size_solved : (solved count).size = count := by simp [solved]

/-- In the solved arrangement every part is at home and untwisted, wherever one looks. -/
@[simp] theorem slot_solved (i : Nat) : (solved count).slot i = ⟨i, 0⟩ := by
  by_cases h : i < count <;> simp [slot, solved, h]

@[simp] theorem size_andThen : (a.andThen m b).size = b.size := by simp [andThen]

/-- A location of a rearranged arrangement holds what was at the location that it takes from. -/
theorem slot_andThen {i : Nat} (h : i < b.size) :
    (a.andThen m b).slot i =
      ⟨(a.slot (b.slot i).part).part, ((a.slot (b.slot i).part).twist + (b.slot i).twist) % m⟩ := by
  have h' : i < (a.andThen m b).size := by simpa using h
  rw [slot_eq_getElem h', slot_eq_getElem h]
  simp [andThen]

/-- The parts stand in the list of parts as they stand in the slots. -/
theorem mem_parts {p : Nat} : p ∈ a.parts ↔ ∃ i < a.size, (a.slot i).part = p := by
  unfold parts
  rw [List.mem_map]
  constructor
  · rintro ⟨s, hs, rfl⟩
    obtain ⟨i, hi, rfl⟩ := Array.mem_iff_getElem.mp (Array.mem_toList_iff.mp hs)
    exact ⟨i, hi, by rw [slot_eq_getElem hi]⟩
  · rintro ⟨i, hi, rfl⟩
    rw [slot_eq_getElem hi]
    exact ⟨a[i], by simp, rfl⟩

/-- The twists stand in the list of twists as they stand in the slots. -/
theorem mem_twists {t : Nat} : t ∈ a.twists ↔ ∃ i < a.size, (a.slot i).twist = t := by
  unfold twists
  rw [List.mem_map]
  constructor
  · rintro ⟨s, hs, rfl⟩
    obtain ⟨i, hi, rfl⟩ := Array.mem_iff_getElem.mp (Array.mem_toList_iff.mp hs)
    exact ⟨i, hi, by rw [slot_eq_getElem hi]⟩
  · rintro ⟨i, hi, rfl⟩
    rw [slot_eq_getElem hi]
    exact ⟨a[i], by simp, rfl⟩

/-! ## Valid arrangements -/

/-- An arrangement is valid if every part is in some slot and every twist is one of the kind's. -/
theorem valid_iff : a.Valid kind count ↔
    a.size = count ∧ (∀ p < count, ∃ i < count, (a.slot i).part = p) ∧
      ∀ i < count, (a.slot i).twist < kind.modulus := by
  unfold Valid
  constructor
  · rintro ⟨rfl, hparts, htwists⟩
    refine ⟨rfl, ?_, ?_⟩
    · intro p hp
      exact mem_parts.mp (hparts p hp)
    · intro i hi
      exact htwists _ (mem_twists.mpr ⟨i, hi, rfl⟩)
  · rintro ⟨rfl, hparts, htwists⟩
    refine ⟨rfl, ?_, ?_⟩
    · intro p hp
      exact mem_parts.mpr (hparts p hp)
    · intro t ht
      obtain ⟨i, hi, rfl⟩ := mem_twists.mp ht
      exact htwists i hi

theorem Valid.size_eq (h : a.Valid kind count) : a.size = count := h.1

/-- Every part of a valid arrangement is somewhere. -/
theorem Valid.exists_slot (h : a.Valid kind count) {p : Nat} (hp : p < count) :
    ∃ i < count, (a.slot i).part = p :=
  (valid_iff.mp h).2.1 p hp

theorem Valid.twist_lt (h : a.Valid kind count) {i : Nat} (hi : i < count) :
    (a.slot i).twist < kind.modulus :=
  (valid_iff.mp h).2.2 i hi

/-- A valid arrangement holds the parts of the solved one in another order. -/
theorem Valid.parts_perm (h : a.Valid kind count) : (List.range count).Perm a.parts := by
  obtain ⟨hsize, hparts, -⟩ := h
  have hsub : (List.range count) ⊆ a.parts := fun p hp => hparts p (List.mem_range.mp hp)
  apply (List.nodup_range.subperm hsub).perm_of_length_le
  simp [parts, hsize]

theorem Valid.part_lt (h : a.Valid kind count) {i : Nat} (hi : i < count) :
    (a.slot i).part < count := by
  have hmem : (a.slot i).part ∈ a.parts := mem_parts.mpr ⟨i, by rw [h.size_eq]; exact hi, rfl⟩
  exact List.mem_range.mp (h.parts_perm.mem_iff.mpr hmem)

/-- No part of a valid arrangement is in two places. -/
theorem Valid.part_injective (h : a.Valid kind count) {i j : Nat} (hi : i < count) (hj : j < count)
    (heq : (a.slot i).part = (a.slot j).part) : i = j := by
  have hnodup : a.parts.Nodup := h.parts_perm.nodup_iff.mp List.nodup_range
  rw [← h.size_eq] at hi hj
  have hi' : i < a.parts.length := by simpa [parts] using hi
  have hj' : j < a.parts.length := by simpa [parts] using hj
  apply (@List.Nodup.getElem_inj_iff _ _ hnodup i hi' j hj').mp
  simpa [parts, slot_eq_getElem hi, slot_eq_getElem hj] using heq

theorem valid_solved : (solved count).Valid kind count := by
  rw [valid_iff]
  refine ⟨size_solved, ?_, ?_⟩
  · intro p hp
    exact ⟨p, hp, by simp⟩
  · intro i _
    cases kind <;> simp [PartKind.modulus]

theorem modulus_pos (kind : PartKind) : 0 < kind.modulus := by
  cases kind <;> decide

/-- A valid arrangement rearranged by a valid one is valid. -/
theorem Valid.andThen (ha : a.Valid kind count) (hb : b.Valid kind count) :
    (a.andThen kind.modulus b).Valid kind count := by
  have hslot : ∀ {i}, i < count → i < b.size := fun hi => by rwa [hb.size_eq]
  rw [valid_iff]
  refine ⟨by rw [size_andThen, hb.size_eq], ?_, ?_⟩
  · intro p hp
    obtain ⟨j, hj, rfl⟩ := ha.exists_slot hp
    obtain ⟨i, hi, rfl⟩ := hb.exists_slot hj
    exact ⟨i, hi, by rw [slot_andThen (hslot hi)]⟩
  · intro i hi
    rw [slot_andThen (hslot hi)]
    exact Nat.mod_lt _ (modulus_pos kind)

theorem Valid.solved_andThen (hb : b.Valid kind count) :
    (solved count).andThen kind.modulus b = b := by
  refine ext_slot (by simp) ?_
  intro i hi
  rw [size_andThen] at hi
  rw [slot_andThen hi, slot_solved, Nat.zero_add,
    Nat.mod_eq_of_lt (hb.twist_lt (hb.size_eq ▸ hi))]

theorem Valid.andThen_solved (ha : a.Valid kind count) :
    a.andThen kind.modulus (solved count) = a := by
  refine ext_slot (by simp [ha.size_eq]) ?_
  intro i hi
  have hi : i < count := by simpa using hi
  rw [slot_andThen (by simpa using hi), slot_solved, Nat.add_zero,
    Nat.mod_eq_of_lt (ha.twist_lt hi)]

/-- Rearranging twice is rearranging by what the second makes of the first. -/
theorem Valid.andThen_assoc (hb : b.Valid kind count) (hc : c.Valid kind count) :
    (a.andThen kind.modulus b).andThen kind.modulus c =
      a.andThen kind.modulus (b.andThen kind.modulus c) := by
  refine ext_slot (by simp) ?_
  intro i hi
  rw [size_andThen] at hi
  have hpart : (c.slot i).part < b.size := by
    rw [hb.size_eq]
    exact hc.part_lt (hc.size_eq ▸ hi)
  rw [slot_andThen hi, slot_andThen hpart, slot_andThen (by simpa using hi), slot_andThen hi]
  simp only [Nat.mod_add_mod, Nat.add_mod_mod, Nat.add_assoc]

end Arrangement

namespace Cube

variable {n : Nat} {c g h : Cube}

theorem two_le_of_supported (hn : (n : Int) ∈ supported) : 2 ≤ n := by
  simp only [supported, List.mem_cons, List.not_mem_nil, or_false] at hn
  omega

theorem create_of_supported (hn : (n : Int) ∈ supported) : create n = .ok (solved n) := by
  rw [create, if_pos (List.contains_iff_mem.mpr hn), Int.toNat_natCast]

/-- A state of a cube with `n` layers: the parts of every kind are validly arranged. -/
def Valid (n : Nat) (c : Cube) : Prop :=
  c.layerCount = n ∧ ∀ kind : PartKind, (c.arrangement kind).Valid kind (kind.count n)

/-- The state `c` rearranged by the state `g`. -/
def andThen (c g : Cube) : Cube where
  layerCount := c.layerCount
  corners := c.corners.andThen PartKind.corner.modulus g.corners
  edges := c.edges.andThen PartKind.edge.modulus g.edges
  sides := c.sides.andThen PartKind.side.modulus g.sides

/-- Cubes with as many layers and the same arrangements are equal. -/
theorem ext_arrangement (hcount : c.layerCount = g.layerCount)
    (harrangement : ∀ kind, c.arrangement kind = g.arrangement kind) : c = g := by
  have hcorners := harrangement .corner
  have hedges := harrangement .edge
  have hsides := harrangement .side
  cases c
  cases g
  simp_all [arrangement]

@[simp] theorem arrangement_solved (kind : PartKind) :
    (solved n).arrangement kind = Arrangement.solved (kind.count n) := by
  cases kind <;> rfl

theorem arrangement_setArrangement (kind other : PartKind) (a : Arrangement) :
    (c.setArrangement kind a).arrangement other = if other = kind then a else c.arrangement other
    := by
  cases kind <;> cases other <;> rfl

@[simp] theorem layerCount_setArrangement (kind : PartKind) (a : Arrangement) :
    (c.setArrangement kind a).layerCount = c.layerCount := by
  cases kind <;> rfl

@[simp] theorem arrangement_andThen (kind : PartKind) :
    (c.andThen g).arrangement kind =
      (c.arrangement kind).andThen kind.modulus (g.arrangement kind) := by
  cases kind <;> rfl

theorem valid_solved : (solved n).Valid n := by
  refine ⟨rfl, ?_⟩
  intro kind
  rw [arrangement_solved]
  exact Arrangement.valid_solved

/-- A valid state rearranged by a valid one is valid. -/
theorem Valid.andThen (hc : c.Valid n) (hg : g.Valid n) : (c.andThen g).Valid n := by
  refine ⟨hc.1, ?_⟩
  intro kind
  rw [arrangement_andThen]
  exact (hc.2 kind).andThen (hg.2 kind)

theorem Valid.solved_andThen (hg : g.Valid n) : (solved n).andThen g = g := by
  refine ext_arrangement hg.1.symm ?_
  intro kind
  rw [arrangement_andThen, arrangement_solved]
  exact (hg.2 kind).solved_andThen

theorem Valid.andThen_solved (hc : c.Valid n) : c.andThen (solved n) = c := by
  refine ext_arrangement rfl ?_
  intro kind
  rw [arrangement_andThen, arrangement_solved]
  exact (hc.2 kind).andThen_solved

/-- Rearranging twice is rearranging by what the second makes of the first. -/
theorem Valid.andThen_assoc (hg : g.Valid n) (hh : h.Valid n) :
    (c.andThen g).andThen h = c.andThen (g.andThen h) := by
  refine ext_arrangement rfl ?_
  intro kind
  simp only [arrangement_andThen]
  exact (hg.2 kind).andThen_assoc (hh.2 kind)

/-- Rearranging the parts of one kind is rearranging the cube by a state in which only that kind is
not solved. -/
theorem rearrange_eq_andThen (hc : c.Valid n) (kind : PartKind) (a : Arrangement) :
    c.rearrange kind a = c.andThen ((solved n).setArrangement kind a) := by
  refine ext_arrangement (by simp [rearrange, Cube.andThen]) ?_
  intro other
  rw [rearrange, arrangement_setArrangement, arrangement_andThen, arrangement_setArrangement,
    arrangement_solved]
  by_cases hother : other = kind
  · subst hother
    simp
  · simp only [if_neg hother]
    exact (hc.2 other).andThen_solved.symm

/-- A state in which only one kind is not solved is valid if that kind is validly arranged. -/
theorem valid_setArrangement {kind : PartKind} {a : Arrangement} (hc : c.Valid n)
    (ha : a.Valid kind (kind.count n)) : (c.setArrangement kind a).Valid n := by
  refine ⟨by simp [hc.1], ?_⟩
  intro other
  rw [arrangement_setArrangement]
  by_cases hother : other = kind
  · subst hother
    simpa using ha
  · simpa [hother] using hc.2 other

end Cube

end CubeLang
