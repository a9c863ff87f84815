import CubeLang.Proofs.Cube.Cycle
import CubeLang.Proofs.Cube.Period
import Mathlib.Data.Nat.GCD.Basic

/-!
# What orders count

Rearranging again and again by one arrangement takes each location its part from so many steps back,
with the twists gathered on the way. On a cycle one is back after a round, and untwisted after so
many rounds that the twist of the cycle adds up to nothing. The order of an arrangement divides
exactly the numbers of times after which all is solved, and the visible order those after which each
location shows a part of its own face.
-/

set_option autoImplicit false

namespace CubeLang

/-- A number is a multiple of a least common multiple if it is one of each number. -/
theorem foldl_lcm_dvd_iff (l : List Nat) (m k : Nat) :
    l.foldl Nat.lcm m ∣ k ↔ m ∣ k ∧ ∀ x ∈ l, x ∣ k := by
  induction l generalizing m with
  | nil => simp
  | cons x l ih =>
    rw [List.foldl_cons, ih, Nat.lcm_dvd_iff, List.forall_mem_cons, and_assoc]

namespace Arrangement

variable {kind : PartKind} {count m : Nat} {a : Arrangement} {cycle : List Nat} {x : Nat}

/-! ## Rearranging again and again -/

/-- The twists on the way back from a location. -/
def gathered (a : Arrangement) : (steps : Nat) → (location : Nat) → Nat
  | 0, _ => 0
  | steps + 1, location => (a.slot location).twist + a.gathered steps (a.source location)

/-- The twists on a way are those on its two parts. -/
theorem gathered_add (a : Arrangement) (j k x : Nat) :
    a.gathered (j + k) x = a.gathered j x + a.gathered k (a.source^[j] x) := by
  induction j generalizing x with
  | zero => simp [gathered]
  | succ j ih =>
    rw [Nat.succ_add, gathered, gathered, ih, Function.iterate_succ_apply, Nat.add_assoc]

/-- The twists on a way are those of the locations met. -/
theorem gathered_eq_sum (a : Arrangement) (k x : Nat) :
    a.gathered k x = ((List.range k).map fun j => (a.slot (a.source^[j] x)).twist).sum := by
  induction k generalizing x with
  | zero => rfl
  | succ k ih =>
    rw [gathered, ih, List.range_succ_eq_map, List.map_cons, List.map_map, List.sum_cons]
    rfl

/-- The solved arrangement rearranged a number of times by another one. -/
def power (kind : PartKind) (a : Arrangement) (k : Nat) : Arrangement :=
  (fun b => b.andThen kind.modulus a)^[k] (solved a.size)

theorem power_succ (a : Arrangement) (k : Nat) :
    power kind a (k + 1) = (power kind a k).andThen kind.modulus a :=
  Function.iterate_succ_apply' _ k _

@[simp] theorem size_power (a : Arrangement) (k : Nat) : (power kind a k).size = a.size := by
  cases k with
  | zero => exact size_solved
  | succ k => rw [power_succ, size_andThen]

/-- After a number of times each location holds the part from so many steps back, with the twists
gathered on the way. -/
theorem Valid.slot_power (h : a.Valid kind count) (k : Nat) {i : Nat} (hi : i < count) :
    (power kind a k).slot i = ⟨a.source^[k] i, a.gathered k i % kind.modulus⟩ := by
  induction k generalizing i with
  | zero =>
    have hsolved : (power kind a 0).slot i = ⟨i, 0⟩ := slot_solved i
    rw [hsolved, gathered, Nat.zero_mod]
    rfl
  | succ k ih =>
    rw [power_succ, slot_andThen (h.size_eq ▸ hi), ih (h.part_lt hi), Function.iterate_succ_apply,
      gathered, Nat.mod_add_mod, Nat.add_comm (a.slot i).twist]
    rfl

/-- After a number of times all is solved if each location is back and untwisted. -/
theorem Valid.power_eq_solved_iff (h : a.Valid kind count) (k : Nat) :
    power kind a k = solved count ↔
      ∀ i < count, a.source^[k] i = i ∧ kind.modulus ∣ a.gathered k i := by
  constructor
  · intro heq i hi
    have hslot := h.slot_power k hi
    rw [heq, slot_solved, Slot.mk.injEq] at hslot
    exact ⟨hslot.1.symm, Nat.dvd_of_mod_eq_zero hslot.2.symm⟩
  · intro hback
    refine ext_slot (by simp [h.size_eq]) ?_
    intro i hi
    rw [size_power, h.size_eq] at hi
    obtain ⟨hsource, htwist⟩ := hback i hi
    rw [h.slot_power k hi, slot_solved, hsource, Nat.mod_eq_zero_of_dvd htwist]

/-! ## Once round a cycle -/

/-- The twist on the way once round a cycle does not depend on where one starts. -/
theorem IsCycle.gathered_length (h : a.IsCycle cycle) (hx : x ∈ cycle) :
    a.gathered cycle.length x = (cycle.map fun y => (a.slot y).twist).sum := by
  have hperm := (h.range_map_iterate_perm hx).map fun y => (a.slot y).twist
  rw [List.map_map] at hperm
  rw [gathered_eq_sum]
  exact hperm.sum_eq

/-- Each round gathers the same twist. -/
theorem IsCycle.gathered_mul (h : a.IsCycle cycle) (hx : x ∈ cycle) (q : Nat) :
    a.gathered (cycle.length * q) x = q * (cycle.map fun y => (a.slot y).twist).sum := by
  induction q with
  | zero => simp [gathered]
  | succ q ih =>
    have hback : a.source^[cycle.length * q] x = x :=
      (h.iterate_eq_self_iff hx _).mpr (Nat.dvd_mul_right _ _)
    rw [Nat.mul_succ, gathered_add, ih, hback, h.gathered_length hx, Nat.succ_mul]

theorem cycleTwist_eq (a : Arrangement) (m : Nat) (cycle : List Nat) :
    a.cycleTwist m cycle = (cycle.map fun y => (a.slot y).twist).sum % m := by
  rw [cycleTwist, List.sum_eq_foldr, List.foldr_map]

/-- How many rounds bring a twist to nothing. -/
theorem div_gcd_dvd_iff (hm : 0 < m) (q s : Nat) : m / Nat.gcd m s ∣ q ↔ m ∣ q * s := by
  have hpos : 0 < Nat.gcd m s := Nat.gcd_pos_of_pos_left s hm
  obtain ⟨u, v, hcoprime, hu, hv⟩ := Nat.exists_coprime m s
  have hmu : m / Nat.gcd m s = u := Nat.div_eq_of_eq_mul_left hpos hu
  rw [hmu]
  calc u ∣ q ↔ u ∣ q * v := hcoprime.dvd_mul_right.symm
    _ ↔ u * Nat.gcd m s ∣ q * v * Nat.gcd m s := (Nat.mul_dvd_mul_iff_right hpos).symm
    _ ↔ m ∣ q * s := by rw [← hu, Nat.mul_assoc, ← hv]

/-- The order of a cycle divides exactly the numbers of times after which its parts are home and
untwisted. -/
theorem IsCycle.cycleOrder_dvd_iff (h : a.IsCycle cycle) (hm : 0 < m) (hx : x ∈ cycle) (k : Nat) :
    a.cycleOrder m cycle ∣ k ↔ a.source^[k] x = x ∧ m ∣ a.gathered k x := by
  have hlength : 0 < cycle.length := List.length_pos_iff.mpr h.ne_nil
  have horder : a.cycleOrder m cycle =
      cycle.length * (m / Nat.gcd m (cycle.map fun y => (a.slot y).twist).sum) := by
    simp only [cycleOrder, cycleTwist_eq]
    split
    · rename_i hzero
      rw [Nat.gcd_eq_left (Nat.dvd_of_mod_eq_zero hzero), Nat.div_self hm, Nat.mul_one]
    · rw [Nat.gcd_comm m (_ % m), ← Nat.gcd_rec]
  rw [h.iterate_eq_self_iff hx, horder]
  constructor
  · intro hdvd
    obtain ⟨q, rfl⟩ := dvd_of_mul_right_dvd hdvd
    rw [h.gathered_mul hx]
    exact ⟨Nat.dvd_mul_right _ _,
      (div_gcd_dvd_iff hm _ _).mp (Nat.dvd_of_mul_dvd_mul_left hlength hdvd)⟩
  · rintro ⟨⟨q, rfl⟩, htwist⟩
    rw [h.gathered_mul hx] at htwist
    exact Nat.mul_dvd_mul_left _ ((div_gcd_dvd_iff hm _ _).mpr htwist)

/-- The visible order of a cycle divides exactly the numbers of times after which its locations
show a part of their own face. -/
theorem IsCycle.visibleCycleOrder_dvd_iff (h : a.IsCycle cycle) (k : Nat) :
    a.visibleCycleOrder cycle ∣ k ↔ ∀ x ∈ cycle, a.source^[k] x % 6 = x % 6 := by
  let faces := cycle.map fun x => a.source x % 6
  let home := cycle.map (· % 6)
  let shown := cycle.map fun x => a.source^[k] x % 6
  have hfaces : faces.rotate 1 = home := by
    have hlinked := congrArg (List.map (· % 6)) h.linked
    rwa [List.map_map, List.map_rotate] at hlinked
  have hshown : shown.rotate k = home := by
    have hlinked := congrArg (List.map (· % 6)) (h.map_iterate_rotate k)
    rwa [List.map_map, List.map_rotate] at hlinked
  have hne : faces ≠ [] := by simpa [faces] using h.ne_nil
  have horder : a.visibleCycleOrder cycle = leastPeriod faces := rfl
  calc a.visibleCycleOrder cycle ∣ k ↔ faces.rotate k = faces := by
        rw [horder, leastPeriod_dvd_iff hne]
    _ ↔ home.rotate k = home := by
        rw [← hfaces, List.rotate_rotate, Nat.add_comm, ← List.rotate_rotate,
          List.rotate_eq_rotate]
    _ ↔ shown = home := by
        rw [← List.rotate_eq_rotate (l := shown) (n := k), hshown]
        exact eq_comm
    _ ↔ ∀ x ∈ cycle, a.source^[k] x % 6 = x % 6 := List.map_inj_left

/-! ## All cycles together -/

section Valid

variable (h : a.Valid kind count)
include h

/-- What repeats on the cycles listed and at the solved locations repeats everywhere. -/
theorem Valid.forall_iff {P : Nat → Prop}
    (hsolved : ∀ i < count, a.isSolvedAt i = true → P i) :
    (∀ cycle ∈ a.cycles, ∀ x ∈ cycle, P x) ↔ ∀ i < count, P i := by
  constructor
  · intro hcycles i hi
    cases hi' : a.isSolvedAt i with
    | true => exact hsolved i hi hi'
    | false =>
      obtain ⟨cycle, hcycle, hmem⟩ := h.exists_cycle hi hi'
      exact hcycles cycle hcycle i hmem
  · intro hall cycle hcycle x hx
    exact hall x (h.size_eq ▸ (h.isCycle_of_mem hcycle).lt_size x hx)

/-- The order of an arrangement divides exactly the numbers of times after which all is solved. -/
theorem Valid.order_dvd_iff (k : Nat) :
    a.order kind.modulus ∣ k ↔ power kind a k = solved count := by
  have hm := modulus_pos kind
  have hsolved : ∀ i < count, a.isSolvedAt i = true →
      a.source^[k] i = i ∧ kind.modulus ∣ a.gathered k i := by
    intro i _ hi
    have hslot : a.slot i = ⟨i, 0⟩ := by simpa [isSolvedAt] using hi
    have hfix : a.source i = i := congrArg Slot.part hslot
    refine ⟨Function.iterate_fixed hfix k, ?_⟩
    have hzero : ∀ j, (a.slot (a.source^[j] i)).twist = 0 := by
      intro j
      rw [Function.iterate_fixed hfix, hslot]
    simp [gathered_eq_sum, hzero]
  unfold order
  rw [h.power_eq_solved_iff, foldl_lcm_dvd_iff, ← h.forall_iff hsolved, List.forall_mem_map]
  simp only [Nat.one_dvd, true_and]
  refine forall₂_congr ?_
  intro cycle hcycle
  have hC := h.isCycle_of_mem hcycle
  constructor
  · intro hdvd x hx
    exact (hC.cycleOrder_dvd_iff hm hx k).mp hdvd
  · intro hall
    have hx := List.head_mem hC.ne_nil
    exact (hC.cycleOrder_dvd_iff hm hx k).mpr (hall _ hx)

/-- The visible order of an arrangement divides exactly the numbers of times after which every
location shows a part of its own face. -/
theorem Valid.visibleOrder_dvd_iff (k : Nat) :
    a.visibleOrder ∣ k ↔ ∀ i < count, ((power kind a k).slot i).part % 6 = i % 6 := by
  have hpower : (∀ i < count, ((power kind a k).slot i).part % 6 = i % 6) ↔
      ∀ i < count, a.source^[k] i % 6 = i % 6 := by
    refine forall₂_congr ?_
    intro i hi
    rw [h.slot_power k hi]
  have hsolved : ∀ i < count, a.isSolvedAt i = true → a.source^[k] i % 6 = i % 6 := by
    intro i _ hi
    have hslot : a.slot i = ⟨i, 0⟩ := by simpa [isSolvedAt] using hi
    rw [Function.iterate_fixed (congrArg Slot.part hslot)]
  unfold visibleOrder
  rw [hpower, foldl_lcm_dvd_iff, ← h.forall_iff hsolved, List.forall_mem_map]
  simp only [Nat.one_dvd, true_and]
  refine forall₂_congr ?_
  intro cycle hcycle
  exact (h.isCycle_of_mem hcycle).visibleCycleOrder_dvd_iff k

end Valid

end Arrangement

/-! ## Cubes -/

namespace Cube

variable {n : Nat} {c : Cube}

/-- The solved cube rearranged a number of times by a state. -/
def power (c : Cube) (k : Nat) : Cube := (fun b => b.andThen c)^[k] (solved c.layerCount)

theorem power_succ (c : Cube) (k : Nat) : c.power (k + 1) = (c.power k).andThen c :=
  Function.iterate_succ_apply' _ k _

/-- Rearranging by a valid state leads to valid states. -/
theorem Valid.power (h : c.Valid n) (k : Nat) : (c.power k).Valid n := by
  induction k with
  | zero =>
    have hzero : c.power 0 = solved n := congrArg solved h.1
    rw [hzero]
    exact valid_solved
  | succ k ih =>
    rw [power_succ]
    exact ih.andThen h

/-- The parts of each kind are rearranged for themselves. -/
theorem Valid.arrangement_power (h : c.Valid n) (k : Nat) (kind : PartKind) :
    (c.power k).arrangement kind = (c.arrangement kind).power kind k := by
  induction k with
  | zero =>
    have hzero : c.power 0 = solved n := congrArg solved h.1
    rw [hzero, arrangement_solved, ← (h.2 kind).size_eq]
    rfl
  | succ k ih => rw [power_succ, arrangement_andThen, ih, Arrangement.power_succ]

/-- A state is solved if each kind is. -/
theorem Valid.isSolved_iff (h : c.Valid n) :
    c.isSolved = true ↔ ∀ kind, c.arrangement kind = .solved (kind.count n) := by
  unfold isSolved
  rw [decide_eq_true_eq, h.1]
  constructor
  · intro heq kind
    rw [heq, arrangement_solved]
  · intro hall
    refine ext_arrangement h.1 ?_
    intro kind
    rw [hall, arrangement_solved]

/-- Whether a cube looks solved: its corners and edges are, and every location of a side holds a
part of its own face, whatever its twist. -/
def LooksSolved (c : Cube) : Prop :=
  c.corners = .solved (PartKind.corner.count c.layerCount) ∧
    c.edges = .solved (PartKind.edge.count c.layerCount) ∧
    ∀ i < PartKind.side.count c.layerCount, (c.sides.slot i).part % 6 = i % 6

/-- The order of a state divides exactly the numbers of times after which the cube is solved. -/
theorem Valid.order_dvd_iff (h : c.Valid n) (k : Nat) :
    c.order ∣ k ↔ (c.power k).isSolved = true := by
  have hkind : ∀ kind : PartKind, (c.arrangement kind).order kind.modulus ∣ k ↔
      (c.power k).arrangement kind = .solved (kind.count n) := by
    intro kind
    rw [(h.2 kind).order_dvd_iff, h.arrangement_power]
  have horder : c.order = (((c.arrangement .corner).order PartKind.corner.modulus).lcm
      ((c.arrangement .edge).order PartKind.edge.modulus)).lcm
      ((c.arrangement .side).order PartKind.side.modulus) := rfl
  rw [(h.power k).isSolved_iff, horder, Nat.lcm_dvd_iff, Nat.lcm_dvd_iff, hkind, hkind, hkind]
  constructor
  · rintro ⟨⟨hcorner, hedge⟩, hside⟩ kind
    cases kind with
    | corner => exact hcorner
    | edge => exact hedge
    | side => exact hside
  · intro hall
    exact ⟨⟨hall .corner, hall .edge⟩, hall .side⟩

/-- The visible order of a state divides exactly the numbers of times after which the cube looks
solved. -/
theorem Valid.visibleOrder_dvd_iff (h : c.Valid n) (k : Nat) :
    c.visibleOrder ∣ k ↔ (c.power k).LooksSolved := by
  have hkind : ∀ kind : PartKind, (c.arrangement kind).order kind.modulus ∣ k ↔
      (c.power k).arrangement kind = .solved (kind.count n) := by
    intro kind
    rw [(h.2 kind).order_dvd_iff, h.arrangement_power]
  have hside : (c.arrangement .side).visibleOrder ∣ k ↔ ∀ i < PartKind.side.count n,
      (((c.power k).arrangement .side).slot i).part % 6 = i % 6 := by
    rw [(h.2 .side).visibleOrder_dvd_iff, h.arrangement_power]
  have horder : c.visibleOrder = (((c.arrangement .corner).order PartKind.corner.modulus).lcm
      ((c.arrangement .edge).order PartKind.edge.modulus)).lcm
      (c.arrangement .side).visibleOrder := rfl
  unfold LooksSolved
  rw [(h.power k).1, horder, Nat.lcm_dvd_iff, Nat.lcm_dvd_iff, hkind, hkind, hside, and_assoc]
  rfl

/-- What is solved looks solved. -/
theorem Valid.looksSolved_of_isSolved (h : c.Valid n) (hsolved : c.isSolved = true) :
    c.LooksSolved := by
  have hall := h.isSolved_iff.mp hsolved
  unfold LooksSolved
  rw [h.1]
  refine ⟨hall .corner, hall .edge, ?_⟩
  intro i _
  have hsides : c.sides = .solved (PartKind.side.count n) := hall .side
  rw [hsides, Arrangement.slot_solved]

/-- The visible order divides the order. -/
theorem Valid.visibleOrder_dvd_order (h : c.Valid n) : c.visibleOrder ∣ c.order := by
  rw [h.visibleOrder_dvd_iff]
  apply (h.power _).looksSolved_of_isSolved
  exact (h.order_dvd_iff _).mp (Nat.dvd_refl _)

end Cube

end CubeLang
