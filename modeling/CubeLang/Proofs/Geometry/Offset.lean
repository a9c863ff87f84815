import CubeLang.Cube.Part
import Mathlib.Data.List.Nodup
import Mathlib.Data.List.Perm.Subperm
import Mathlib.Data.List.ProdSigma
import Mathlib.Tactic.Ring

/-!
# Places on an edge and on a face

The rounds of an edge number the places along it, and the rings of a face with their orbits the
places on it, each place once. What is to be shown is that every place has a number; since there
are as many numbers as places, no place has two.
-/

set_option autoImplicit false

namespace CubeLang

/-- A coordinate of a part, on an axis along which the part lies inside the cube. -/
def Inner (n : Nat) (w : Int) : Prop :=
  -(n - 1 : Int) < w ∧ w < n - 1 ∧ (w + (n - 1)) % 2 = 0

/-- A list that is no longer than a list of different elements which it covers has no repetition
either. -/
theorem nodup_of_covers {α : Type} {xs ys : List α} (hxs : xs.Nodup) (hcover : xs ⊆ ys)
    (hlength : ys.length ≤ xs.length) : ys.Nodup := by
  have hperm := (hxs.subperm hcover).perm_of_length_le hlength
  exact hperm.nodup_iff.mp hxs

/-- What stands at an index of a list made of blocks of one length. -/
theorem getElem?_blocks {α β : Type} {f : α → List β} {length : Nat} (hpos : 0 < length)
    (hlength : ∀ x, (f x).length = length) (xs : List α) (i : Nat) :
    (xs.flatMap f)[i]? = (xs[i / length]?).bind fun x => (f x)[i % length]? := by
  induction xs generalizing i with
  | nil => simp
  | cons x xs ih =>
    rw [List.flatMap_cons]
    by_cases hi : i < length
    · rw [List.getElem?_append_left (by rwa [hlength]), Nat.div_eq_of_lt hi, Nat.mod_eq_of_lt hi]
      simp
    · have hle : length ≤ i := Nat.le_of_not_lt hi
      have hdiv : i / length = (i - length) / length + 1 := Nat.div_eq_sub_div hpos hle
      have hmod : i % length = (i - length) % length := Nat.mod_eq_sub_mod hle
      rw [List.getElem?_append_right (by rwa [hlength]), hlength, ih, hdiv, hmod]
      simp

/-! ## Edges -/

theorem inner_wingOffset {n round : Nat} (h : round < n - 2) : Inner n (wingOffset n round) := by
  unfold Inner wingOffset
  split <;> omega

theorem wingOffset_injective {n : Nat} {a b : Nat} (h : wingOffset n a = wingOffset n b) :
    a = b := by
  unfold wingOffset at h
  split at h <;> split at h <;> omega

/-- Every distance inside the cube is that of a round. -/
theorem exists_wingOffset {n : Nat} {w : Int} (h : Inner n w) :
    ∃ round < n - 2, wingOffset n round = w := by
  obtain ⟨hlow, hhigh, hparity⟩ := h
  by_cases hw : 0 ≤ w
  · refine ⟨w.toNat, by omega, ?_⟩
    unfold wingOffset
    rw [if_neg (by omega)]
    omega
  · refine ⟨(-w - 1).toNat, by omega, ?_⟩
    unfold wingOffset
    rw [if_pos (by omega)]
    omega

/-! ## Faces -/

/-- The distance of a ring from the middle of the face. -/
def ringAt (n k : Nat) : Int := 2 * (k : Int) + (if n % 2 = 0 then 1 else 2)

/-- The rings inside a ring are those before it. -/
theorem take_rings {n k : Nat} (h : k ≤ (n - 2) / 2) :
    (rings n).take k = (List.range k).map (ringAt n) := by
  rw [rings, ← List.map_take, List.take_range, Nat.min_eq_left h]
  rfl

theorem getD_rings {n k : Nat} (h : k < (n - 2) / 2) : (rings n).getD k 0 = ringAt n k := by
  simp [rings, ringAt, List.getD, h]

/-- The places of a face, with the rings in the open. -/
theorem sideOffsets_eq (n : Nat) :
    sideOffsets n = (if n % 2 = 0 then [] else [(0, 0)])
      ++ (List.range ((n - 2) / 2)).flatMap fun k =>
        ringOffsets n ((List.range k).map (ringAt n)) (ringAt n k) := by
  unfold sideOffsets
  congr 1
  apply List.flatMap_congr
  intro k hk
  have hk : k < (n - 2) / 2 := List.mem_range.mp hk
  rw [take_rings (Nat.le_of_lt hk), getD_rings hk]

/-- The coordinate that sets the orbits of a ring apart: the ring itself, the middle, or one of
the rings inside. -/
theorem mem_ringOffsets {n k : Nat} {place : Int × Int} :
    place ∈ ringOffsets n ((List.range k).map (ringAt n)) (ringAt n k) ↔
      ∃ minor, place ∈ orbit (ringAt n k) minor ∧
        (minor = ringAt n k ∨ (n % 2 = 1 ∧ minor = 0) ∨
          ∃ j < k, minor = ringAt n j ∨ minor = -ringAt n j) := by
  have hodd : ∀ minor : Int, (minor ∈ if n % 2 = 0 then [] else [0]) ↔ n % 2 = 1 ∧ minor = 0 := by
    intro minor
    rcases Nat.mod_two_eq_zero_or_one n with h | h <;> simp [h]
  have hinner : ∀ minor : Int,
      (minor ∈ ((List.range k).map (ringAt n)).flatMap fun r => [r, -r]) ↔
        ∃ j < k, minor = ringAt n j ∨ minor = -ringAt n j := by
    intro minor
    simp
  simp only [ringOffsets, List.mem_append, List.mem_flatMap, hodd, hinner]
  constructor
  · rintro (h | ⟨minor, hminor, h⟩)
    · exact ⟨_, h, Or.inl rfl⟩
    · exact ⟨minor, h, Or.inr hminor⟩
  · rintro ⟨minor, h, rfl | hminor⟩
    · exact Or.inl h
    · exact Or.inr ⟨minor, hminor, h⟩

/-- A ring is as far from the middle as its number says, and of the right parity. -/
theorem ringAt_bounds {n k : Nat} (h : k < (n - 2) / 2) :
    0 < ringAt n k ∧ ringAt n k < n - 1 ∧ (ringAt n k + (n - 1)) % 2 = 0 := by
  unfold ringAt
  split <;> omega

theorem ringAt_lt {n j k : Nat} (h : j < k) : ringAt n j < ringAt n k := by
  unfold ringAt
  omega

/-- The coordinates of a place on a face are inside the cube. -/
theorem inner_of_mem_sideOffsets {n : Nat} {p q : Int} (hn : 2 ≤ n)
    (h : (p, q) ∈ sideOffsets n) : Inner n p ∧ Inner n q := by
  rw [sideOffsets_eq, List.mem_append] at h
  rcases h with h | h
  · by_cases hn' : n % 2 = 0
    · simp [hn'] at h
    · simp only [hn', if_false, List.mem_singleton, Prod.mk.injEq] at h
      obtain ⟨rfl, rfl⟩ := h
      unfold Inner
      omega
  · obtain ⟨k, hk, h⟩ := List.mem_flatMap.mp h
    obtain ⟨minor, horbit, hminor⟩ := mem_ringOffsets.mp h
    have hring := ringAt_bounds (List.mem_range.mp hk)
    have hinner : -ringAt n k ≤ minor ∧ minor ≤ ringAt n k ∧ (minor + (n - 1)) % 2 = 0 := by
      rcases hminor with rfl | ⟨hodd, rfl⟩ | ⟨j, hj, hminor⟩
      · omega
      · omega
      · have hj' := ringAt_lt (n := n) hj
        have hbounds := ringAt_bounds (Nat.lt_trans hj (List.mem_range.mp hk))
        omega
    simp only [orbit, List.mem_cons, Prod.mk.injEq, List.not_mem_nil, or_false] at horbit
    unfold Inner
    omega

/-- A positive distance inside the cube is that of a ring. -/
theorem exists_ringAt {n : Nat} {w : Int} (hpos : 0 < w) (hlt : w < n - 1)
    (hparity : (w + (n - 1)) % 2 = 0) : ∃ k < (n - 2) / 2, ringAt n k = w := by
  unfold ringAt
  split
  · exact ⟨((w - 1) / 2).toNat, by omega, by omega⟩
  · exact ⟨((w - 2) / 2).toNat, by omega, by omega⟩

/-- A distance that is no further out than a ring makes an orbit of it, unless it is the opposite
of the ring. -/
theorem minor_of_bounds {n k : Nat} {w : Int} (hk : k < (n - 2) / 2) (hlow : -ringAt n k < w)
    (hhigh : w ≤ ringAt n k) (hparity : (w + (n - 1)) % 2 = 0) :
    w = ringAt n k ∨ (n % 2 = 1 ∧ w = 0) ∨ ∃ j < k, w = ringAt n j ∨ w = -ringAt n j := by
  have hring := ringAt_bounds hk
  by_cases hw : w = ringAt n k
  · exact Or.inl hw
  by_cases hzero : w = 0
  · exact Or.inr (Or.inl (by omega))
  have hbelow : ∀ j, ringAt n j < ringAt n k → j < k := by
    intro j hj
    by_contra hle
    rcases Nat.lt_or_eq_of_le (Nat.le_of_not_lt hle) with hkj | rfl
    · exact absurd (ringAt_lt (n := n) hkj) (by omega)
    · exact absurd hj (by omega)
  refine Or.inr (Or.inr ?_)
  by_cases hpos : 0 < w
  · obtain ⟨j, -, hj⟩ := exists_ringAt (n := n) hpos (by omega) hparity
    exact ⟨j, hbelow j (by omega), Or.inl hj.symm⟩
  · obtain ⟨j, -, hj⟩ := exists_ringAt (n := n) (w := -w) (by omega) (by omega) (by omega)
    exact ⟨j, hbelow j (by omega), Or.inr (by omega)⟩

/-- A place belongs to a ring if one of its coordinates is on the ring, on one side or the other,
and the other coordinate is no further out. -/
theorem mem_ringOffsets_of_bounds {n k : Nat} {p q : Int} (hk : k < (n - 2) / 2)
    (hp : -ringAt n k ≤ p ∧ p ≤ ringAt n k) (hq : -ringAt n k ≤ q ∧ q ≤ ringAt n k)
    (hparity : (p + (n - 1)) % 2 = 0 ∧ (q + (n - 1)) % 2 = 0)
    (hring : p = ringAt n k ∨ p = -ringAt n k ∨ q = ringAt n k ∨ q = -ringAt n k) :
    (p, q) ∈ ringOffsets n ((List.range k).map (ringAt n)) (ringAt n k) := by
  rw [mem_ringOffsets]
  have hpos := (ringAt_bounds hk).1
  -- Each side of the ring ends before one of its corners, which is the first place of the next.
  by_cases hright : p = ringAt n k ∧ -ringAt n k < q
  · exact ⟨q, by simp [orbit, hright.1], minor_of_bounds hk hright.2 hq.2 hparity.2⟩
  by_cases hdown : q = ringAt n k ∧ p < ringAt n k
  · refine ⟨-p, by simp [orbit, hdown.1], minor_of_bounds hk ?_ ?_ ?_⟩ <;> omega
  by_cases hleft : p = -ringAt n k ∧ q < ringAt n k
  · refine ⟨-q, by simp [orbit, hleft.1], minor_of_bounds hk ?_ ?_ ?_⟩ <;> omega
  · have hup : q = -ringAt n k ∧ -ringAt n k < p := by omega
    exact ⟨p, by simp [orbit, hup.1], minor_of_bounds hk hup.2 hp.2 hparity.1⟩

/-- Every pair of coordinates inside the cube is a place on a face. -/
theorem mem_sideOffsets_of_inner {n : Nat} {p q : Int} (hp : Inner n p) (hq : Inner n q) :
    (p, q) ∈ sideOffsets n := by
  obtain ⟨hp₁, hp₂, hp₃⟩ := hp
  obtain ⟨hq₁, hq₂, hq₃⟩ := hq
  rw [sideOffsets_eq, List.mem_append]
  by_cases hzero : p = 0 ∧ q = 0
  · left
    obtain ⟨rfl, rfl⟩ := hzero
    rw [if_neg (by omega)]
    exact List.mem_singleton_self _
  · right
    obtain ⟨k, hk, hring⟩ := exists_ringAt (n := n) (w := max (max p (-p)) (max q (-q)))
      (by omega) (by omega) (by omega)
    refine List.mem_flatMap.mpr ⟨k, List.mem_range.mpr hk, ?_⟩
    apply mem_ringOffsets_of_bounds hk <;> omega

/-- The places of a face are the pairs of coordinates inside the cube. -/
theorem mem_sideOffsets {n : Nat} (hn : 2 ≤ n) {p q : Int} :
    (p, q) ∈ sideOffsets n ↔ Inner n p ∧ Inner n q :=
  ⟨inner_of_mem_sideOffsets hn, fun h => mem_sideOffsets_of_inner h.1 h.2⟩

/-- A ring has as many places as its number and the parity of the layer count say. -/
theorem length_ringOffsets (n k : Nat) :
    (ringOffsets n ((List.range k).map (ringAt n)) (ringAt n k)).length = 4 * (n % 2 + 2 * k + 1)
    := by
  have hinner : (((List.range k).map (ringAt n)).flatMap fun r => [r, -r]).length = 2 * k := by
    rw [List.length_flatMap, List.map_map]
    simp [Function.comp_def, Nat.mul_comm]
  have horbits : ∀ (r : Int) (minors : List Int),
      (minors.flatMap fun minor => orbit r minor).length = 4 * minors.length := by
    intro r minors
    rw [List.length_flatMap]
    simp [orbit, Nat.mul_comm]
  have hodd : (if n % 2 = 0 then [] else [(0 : Int)]).length = n % 2 := by
    rcases Nat.mod_two_eq_zero_or_one n with h | h <;> simp [h]
  simp only [ringOffsets, List.length_append, horbits, hodd, hinner]
  simp only [orbit, List.length_cons, List.length_nil]
  omega

/-- The rings up to a number have together a square of places, less the middle. -/
theorem length_ringsOffsets (n k : Nat) :
    ((List.range k).flatMap fun k =>
      ringOffsets n ((List.range k).map (ringAt n)) (ringAt n k)).length = 4 * k * (k + n % 2) := by
  induction k with
  | zero => simp
  | succ k ih =>
    rw [List.range_succ, List.flatMap_append, List.length_append, ih, List.flatMap_singleton,
      length_ringOffsets]
    ring

/-- A face has as many places as its inner square. -/
theorem length_sideOffsets {n : Nat} (hn : 2 ≤ n) :
    (sideOffsets n).length = (n - 2) * (n - 2) := by
  rw [sideOffsets_eq, List.length_append, length_ringsOffsets]
  rcases Nat.mod_two_eq_zero_or_one n with h | h
  · obtain ⟨k, rfl⟩ : ∃ k, n = 2 * k + 2 := ⟨(n - 2) / 2, by omega⟩
    have hk : (2 * k + 2 - 2) / 2 = k := by omega
    rw [h, hk, Nat.add_sub_cancel]
    simp only [if_true, List.length_nil]
    ring
  · obtain ⟨k, rfl⟩ : ∃ k, n = 2 * k + 3 := ⟨(n - 2) / 2, by omega⟩
    have hk : (2 * k + 3 - 2) / 2 = k := by omega
    have hk' : 2 * k + 3 - 2 = 2 * k + 1 := by omega
    rw [h, hk, hk']
    simp only [Nat.one_ne_zero, if_false, List.length_singleton]
    ring

/-- The coordinates inside the cube in order. -/
def innerCoordinates (n : Nat) : List Int :=
  (List.range (n - 2)).map fun k : Nat => 2 * (k : Int) - (n - 3)

/-- The coordinates in order are inside the cube. -/
theorem inner_of_mem_innerCoordinates {n : Nat} {w : Int} (h : w ∈ innerCoordinates n) :
    Inner n w := by
  obtain ⟨k, hk, rfl⟩ := List.mem_map.mp h
  have hk : k < n - 2 := List.mem_range.mp hk
  unfold Inner
  omega

theorem nodup_innerCoordinates (n : Nat) : (innerCoordinates n).Nodup := by
  refine List.Nodup.map ?_ List.nodup_range
  intro a b h
  simp only at h
  omega

/-- No place of a face comes twice. -/
theorem nodup_sideOffsets {n : Nat} (hn : 2 ≤ n) : (sideOffsets n).Nodup := by
  have hnodup := nodup_innerCoordinates n
  refine nodup_of_covers (hnodup.product hnodup) ?_ ?_
  · rintro ⟨p, q⟩ h
    obtain ⟨hp, hq⟩ := List.mem_product.mp h
    exact mem_sideOffsets_of_inner (inner_of_mem_innerCoordinates hp)
      (inner_of_mem_innerCoordinates hq)
  · rw [length_sideOffsets hn, List.length_product]
    simp [innerCoordinates]

end CubeLang
