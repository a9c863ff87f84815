import CubeLang.Cube.Cycles
import CubeLang.Proofs.Cube.Composition
import Mathlib.Data.List.Rotate
import Mathlib.Data.Nat.Find
import Mathlib.Data.Nat.ModEq
import Mathlib.Logic.Function.Iterate

/-!
# The cycles of a valid arrangement

In a valid arrangement the way from a location to the one that holds its part, and on to the one
that holds the part of that one, comes back to where it began. The cycles listed are these ways,
each location that is not solved being on exactly one of them.
-/

set_option autoImplicit false

namespace CubeLang.Arrangement

variable {kind : PartKind} {count : Nat} {a : Arrangement} {cycle : List Nat} {x y : Nat}

/-- The location at which the part of a location belongs. -/
def source (a : Arrangement) (i : Nat) : Nat := (a.slot i).part

/-- A list of locations is a cycle if each location holds the part that belongs where the one
before it is, and the first one the part that belongs where the last one is. -/
structure IsCycle (a : Arrangement) (cycle : List Nat) : Prop where
  ne_nil : cycle ≠ []
  nodup : cycle.Nodup
  lt_size : ∀ x ∈ cycle, x < a.size
  linked : (cycle.rotate 1).map a.source = cycle

theorem nodup_map_range {f : Nat → Nat} {n : Nat} (hne : ∀ i j, i < j → j < n → f i ≠ f j) :
    ((List.range n).map f).Nodup := by
  apply List.pairwise_map.mpr
  apply List.pairwise_lt_range.imp_of_mem
  intro i j _ hj hij
  exact hne i j hij (List.mem_range.mp hj)

namespace IsCycle

/-- A cycle may be written from any of its locations on. -/
theorem rotate (h : a.IsCycle cycle) (k : Nat) : a.IsCycle (cycle.rotate k) where
  ne_nil := by simpa using h.ne_nil
  nodup := List.nodup_rotate.mpr h.nodup
  lt_size := fun x hx => h.lt_size x (List.mem_rotate.mp hx)
  linked := by
    rw [List.rotate_rotate, Nat.add_comm, ← List.rotate_rotate, List.map_rotate, h.linked]

/-- Going back several steps from each location of a cycle gives the cycle turned back. -/
theorem map_iterate_rotate (h : a.IsCycle cycle) (k : Nat) :
    (cycle.rotate k).map a.source^[k] = cycle := by
  induction k with
  | zero => simp
  | succ k ih =>
    have hstep : ((cycle.rotate (k + 1)).map a.source) = cycle.rotate k := by
      rw [← List.rotate_rotate]
      exact (h.rotate k).linked
    rw [Function.iterate_succ, ← List.map_map, hstep, ih]

theorem source_mem (h : a.IsCycle cycle) (hx : x ∈ cycle) : a.source x ∈ cycle := by
  rw [← h.linked]
  exact List.mem_map_of_mem (List.mem_rotate.mpr hx)

/-- Going back from a location of a cycle one stays on it. -/
theorem iterate_mem (h : a.IsCycle cycle) (hx : x ∈ cycle) (k : Nat) : a.source^[k] x ∈ cycle := by
  induction k with
  | zero => exact hx
  | succ k ih =>
    rw [Function.iterate_succ_apply']
    exact h.source_mem ih

/-- Going back from a location of a cycle one is there again after as many steps as the cycle is
long, and after multiples of that, and not otherwise. -/
theorem iterate_eq_self_iff (h : a.IsCycle cycle) (hx : x ∈ cycle) (k : Nat) :
    a.source^[k] x = x ↔ cycle.length ∣ k := by
  have hpos : 0 < cycle.length := List.length_pos_iff.mpr h.ne_nil
  obtain ⟨i, hi, rfl⟩ := List.mem_iff_getElem.mp (List.mem_rotate.mpr hx : x ∈ cycle.rotate k)
  have hi' : i < cycle.length := by simpa using hi
  have hback : a.source^[k] (cycle.rotate k)[i] = cycle[i] := by
    have hmap := h.map_iterate_rotate k
    have hget := congrArg (fun l => l[i]?) hmap
    simpa [hi, hi'] using hget
  rw [hback, List.getElem_rotate, h.nodup.getElem_inj_iff]
  constructor
  · intro heq
    have hmod : (i + k) % cycle.length = (i + 0) % cycle.length := by
      rw [← heq, Nat.add_zero, Nat.mod_eq_of_lt hi']
    have hk : k % cycle.length = 0 % cycle.length := Nat.ModEq.add_left_cancel' i hmod
    exact Nat.dvd_of_mod_eq_zero (by simpa using hk)
  · rintro ⟨q, rfl⟩
    rw [Nat.add_mul_mod_self_left, Nat.mod_eq_of_lt hi']

/-- The parts of different locations of a cycle belong to different ones. -/
theorem source_inj (h : a.IsCycle cycle) (hx : x ∈ cycle) (hy : y ∈ cycle)
    (heq : a.source x = a.source y) : x = y := by
  have hnodup : ((cycle.rotate 1).map a.source).Nodup := by
    rw [h.linked]
    exact h.nodup
  exact List.inj_on_of_nodup_map hnodup (List.mem_rotate.mpr hx) (List.mem_rotate.mpr hy) heq

/-- If going back from a location leads to the same one after more steps, then the further steps
alone lead round. -/
theorem iterate_cancel (h : a.IsCycle cycle) (hx : x ∈ cycle) {i j : Nat}
    (heq : a.source^[i] x = a.source^[i + j] x) : a.source^[j] x = x := by
  induction i with
  | zero => simpa using heq.symm
  | succ i ih =>
    rw [Nat.succ_add, Function.iterate_succ_apply', Function.iterate_succ_apply'] at heq
    exact ih (h.source_inj (h.iterate_mem hx _) (h.iterate_mem hx _) heq)

/-- Less than a round back from a location are only different locations. -/
theorem iterate_ne (h : a.IsCycle cycle) (hx : x ∈ cycle) {i j : Nat} (hij : i < j)
    (hj : j < cycle.length) : a.source^[i] x ≠ a.source^[j] x := by
  intro heq
  have hcancel : a.source^[j - i] x = x := by
    apply h.iterate_cancel hx (i := i)
    rwa [Nat.add_sub_cancel' (Nat.le_of_lt hij)]
  have hle := Nat.le_of_dvd (by omega) ((h.iterate_eq_self_iff hx _).mp hcancel)
  omega

/-- A round through a cycle, going back from any of its locations, meets each location once. -/
theorem range_map_iterate_perm (h : a.IsCycle cycle) (hx : x ∈ cycle) :
    ((List.range cycle.length).map fun k => a.source^[k] x).Perm cycle := by
  have hnodup : ((List.range cycle.length).map fun k => a.source^[k] x).Nodup := by
    apply nodup_map_range
    intro i j hij hj
    exact h.iterate_ne hx hij hj
  have hsub : ((List.range cycle.length).map fun k => a.source^[k] x) ⊆ cycle := by
    intro y hy
    obtain ⟨k, -, rfl⟩ := List.mem_map.mp hy
    exact h.iterate_mem hx k
  exact (hnodup.subperm hsub).perm_of_length_le (by simp)

/-- A solved location is alone on its cycle. -/
theorem eq_of_isSolvedAt (h : a.IsCycle cycle) (hx : x ∈ cycle) (hsolved : a.isSolvedAt x = true)
    (hy : y ∈ cycle) : y = x := by
  have hslot : a.slot x = ⟨x, 0⟩ := by simpa [isSolvedAt] using hsolved
  have hfix : a.source x = x := congrArg Slot.part hslot
  obtain ⟨k, -, rfl⟩ := List.mem_map.mp ((h.range_map_iterate_perm hx).mem_iff.mpr hy)
  exact Function.iterate_fixed hfix k

/-- Two cycles with a location in common have all in common. -/
theorem subset_of_mem {other : List Nat} (h : a.IsCycle cycle) (h' : a.IsCycle other)
    (hx : x ∈ cycle) (hx' : x ∈ other) : cycle ⊆ other := by
  intro y hy
  obtain ⟨k, -, rfl⟩ := List.mem_map.mp ((h.range_map_iterate_perm hx).mem_iff.mpr hy)
  exact h'.iterate_mem hx' k

end IsCycle

/-! ## The way of the program -/

/-- The walk goes on as its map says, never meets its start, and ends there or out of steps. -/
theorem walk_eq (next : Array Nat) (start : Nat) (steps x : Nat) :
    ∃ k ≤ steps, walk next start steps x =
        (List.range k).map (fun j => (fun y => next.getD y start)^[j] x) ∧
      (∀ j < k, (fun y => next.getD y start)^[j] x ≠ start) ∧
      (k < steps → (fun y => next.getD y start)^[k] x = start) := by
  induction steps generalizing x with
  | zero => exact ⟨0, Nat.le_refl 0, rfl, by simp, by simp⟩
  | succ steps ih =>
    by_cases hx : x = start
    · exact ⟨0, Nat.zero_le _, by simp [walk, hx], by simp, fun _ => hx⟩
    · obtain ⟨k, hk, hwalk, hne, hend⟩ := ih (next.getD x start)
      refine ⟨k + 1, by omega, ?_, ?_, ?_⟩
      · rw [walk, if_neg hx, hwalk, List.range_succ_eq_map, List.map_cons, List.map_map]
        rfl
      · intro j hj
        cases j with
        | zero => exact hx
        | succ j => exact hne j (by omega)
      · intro hlt
        exact hend (by omega)

section Iterate

variable {next back : Nat → Nat} {start k : Nat}

/-- If each step can be taken back, a location met twice would be the start met again. -/
theorem iterate_ne_iterate (hback : ∀ j, back (next^[j + 1] start) = next^[j] start)
    (hne : ∀ j < k, next^[j + 1] start ≠ start) :
    ∀ i j, i < j → j ≤ k → next^[i] start ≠ next^[j] start := by
  intro i
  induction i with
  | zero =>
    intro j hij hj heq
    obtain ⟨j, rfl⟩ := Nat.exists_eq_succ_of_ne_zero (by omega : j ≠ 0)
    exact hne j (by omega) heq.symm
  | succ i ih =>
    intro j hij hj heq
    obtain ⟨j, rfl⟩ := Nat.exists_eq_succ_of_ne_zero (by omega : j ≠ 0)
    have heq' := congrArg back heq
    rw [Nat.succ_eq_add_one, hback, hback] at heq'
    exact ih j (by omega) (by omega) heq'

theorem range_map_iterate_rotate (hclosed : next^[k + 1] start = start) :
    ((List.range (k + 1)).map fun j => next^[j] start).rotate 1 =
      (List.range (k + 1)).map fun j => next^[j + 1] start := by
  have hhead : ((List.range (k + 1)).map fun j => next^[j] start) =
      start :: (List.range k).map fun j => next^[j + 1] start := by
    rw [List.range_succ_eq_map, List.map_cons, List.map_map]
    rfl
  rw [hhead, List.rotate_cons_succ, List.rotate_zero, List.range_succ, List.map_append,
    List.map_singleton, hclosed]

end Iterate

section Valid

variable (h : a.Valid kind count)
include h

/-- Every part is at the location that holds it. -/
theorem Valid.holder_spec {p : Nat} (hp : p < count) :
    a.holder p < count ∧ a.source (a.holder p) = p := by
  obtain ⟨i, hi, hpart⟩ := h.exists_slot hp
  have hsize := h.size_eq
  have hi' : i < a.size := by omega
  have hlt : a.holder p < a.toList.length := by
    apply List.findIdx_lt_length_of_exists
    exact ⟨a[i], by simp, by simpa [slot_eq_getElem hi'] using hpart⟩
  have hfound := List.findIdx_getElem (w := hlt)
  rw [Array.length_toList] at hlt
  refine ⟨by omega, ?_⟩
  unfold source
  rw [slot_eq_getElem hlt, ← Array.getElem_toList]
  exact of_decide_eq_true hfound

theorem Valid.getD_holders {p : Nat} (hp : p < count) (d : Nat) :
    a.holders.getD p d = a.holder p := by
  have hp' : p < a.size := by rwa [h.size_eq]
  simp [holders, hp']

/-- Holder by holder one stays among the locations. -/
theorem Valid.iterate_holders_lt {start : Nat} (hstart : start < count) (j : Nat) :
    (fun y => a.holders.getD y start)^[j] start < count := by
  induction j with
  | zero => exact hstart
  | succ j ih =>
    rw [Function.iterate_succ_apply', h.getD_holders ih]
    exact (h.holder_spec ih).1

/-- The part of a holder belongs where the one before it is. -/
theorem Valid.source_iterate_holders {start : Nat} (hstart : start < count) (j : Nat) :
    a.source ((fun y => a.holders.getD y start)^[j + 1] start) =
      (fun y => a.holders.getD y start)^[j] start := by
  have hlt := h.iterate_holders_lt hstart j
  rw [Function.iterate_succ_apply', h.getD_holders hlt]
  exact (h.holder_spec hlt).2

/-- The way from a location, holder by holder, comes back to it within as many steps as there are
locations, and it is a cycle. -/
theorem Valid.isCycle_cycleOf {start : Nat} (hstart : start < count) :
    a.IsCycle (cycleOf a.holders start) ∧ start ∈ cycleOf a.holders start := by
  let next := fun y => a.holders.getD y start
  have hlt : ∀ j, next^[j] start < count := h.iterate_holders_lt hstart
  have hback : ∀ j, a.source (next^[j + 1] start) = next^[j] start :=
    h.source_iterate_holders hstart
  obtain ⟨k, hk, hwalk, hne, hend⟩ := walk_eq a.holders start a.holders.size (next start)
  have hcycle : cycleOf a.holders start = (List.range (k + 1)).map fun j => next^[j] start := by
    rw [cycleOf, List.range_succ_eq_map, List.map_cons, List.map_map]
    exact congrArg (start :: ·) hwalk
  have hnodup : ((List.range (k + 1)).map fun j => next^[j] start).Nodup := by
    apply nodup_map_range
    intro i j hij hj
    exact iterate_ne_iterate hback hne i j hij (by omega)
  have hmem : ∀ x ∈ (List.range (k + 1)).map fun j => next^[j] start, x < count := by
    intro x hx
    obtain ⟨j, -, rfl⟩ := List.mem_map.mp hx
    exact hlt j
  -- A list of different locations is no longer than all of them, so the walk had steps to spare.
  have hlength : k + 1 ≤ count := by
    have hsub : ((List.range (k + 1)).map fun j => next^[j] start) ⊆ List.range count :=
      fun x hx => List.mem_range.mpr (hmem x hx)
    have hle := (hnodup.subperm hsub).length_le
    rwa [List.length_map, List.length_range, List.length_range] at hle
  have hclosed : next^[k + 1] start = start := by
    apply hend
    have hsize : a.holders.size = count := by simp [holders, h.size_eq]
    omega
  rw [hcycle]
  refine ⟨⟨by simp, hnodup, ?_, ?_⟩, ?_⟩
  · intro x hx
    rw [h.size_eq]
    exact hmem x hx
  · rw [range_map_iterate_rotate hclosed, List.map_map]
    exact List.map_congr_left fun j _ => hback j
  · exact List.mem_map.mpr ⟨0, by simp, rfl⟩

end Valid

/-! ## The cycles listed -/

/-- What a location contributes to the list: its cycle, if it is not solved and no lesser location
is on the way. -/
theorem contribution_eq_some {start : Nat} :
    (if a.isSolvedAt start then none
      else
        let cycle := cycleOf a.holders start
        if cycle.all fun location => start ≤ location then some cycle else none) = some cycle ↔
      a.isSolvedAt start = false ∧ cycle = cycleOf a.holders start ∧ ∀ x ∈ cycle, start ≤ x := by
  simp only [Option.ite_none_left_eq_some, Option.ite_none_right_eq_some, Option.some_inj,
    List.all_eq_true, decide_eq_true_eq, Bool.not_eq_true]
  constructor
  · rintro ⟨hsolved, hleast, rfl⟩
    exact ⟨hsolved, rfl, hleast⟩
  · rintro ⟨hsolved, rfl, hleast⟩
    exact ⟨hsolved, hleast, rfl⟩

/-- The cycles listed are what the locations contribute. -/
theorem mem_cycles : cycle ∈ a.cycles ↔ ∃ start < a.size, a.isSolvedAt start = false ∧
    cycle = cycleOf a.holders start ∧ ∀ x ∈ cycle, start ≤ x := by
  unfold cycles
  simp only [List.mem_filterMap, List.mem_range, contribution_eq_some]

section Valid

variable (h : a.Valid kind count)
include h

theorem Valid.isCycle_of_mem (hcycle : cycle ∈ a.cycles) : a.IsCycle cycle := by
  obtain ⟨start, hstart, -, rfl, -⟩ := mem_cycles.mp hcycle
  exact (h.isCycle_cycleOf (h.size_eq ▸ hstart)).1

/-- A cycle listed starts at its least location, which is not solved. -/
theorem Valid.exists_start (hcycle : cycle ∈ a.cycles) : ∃ start ∈ cycle,
    a.isSolvedAt start = false ∧ cycle = cycleOf a.holders start ∧ ∀ x ∈ cycle, start ≤ x := by
  obtain ⟨start, hstart, hsolved, rfl, hleast⟩ := mem_cycles.mp hcycle
  exact ⟨start, (h.isCycle_cycleOf (h.size_eq ▸ hstart)).2, hsolved, rfl, hleast⟩

/-- Two cycles listed that have a location in common are the same. -/
theorem Valid.cycles_eq_of_mem {other : List Nat} (hcycle : cycle ∈ a.cycles)
    (hother : other ∈ a.cycles) (hx : x ∈ cycle) (hx' : x ∈ other) : cycle = other := by
  obtain ⟨s, hs, -, hcycleOf, hleast⟩ := h.exists_start hcycle
  obtain ⟨t, ht, -, hotherOf, hleast'⟩ := h.exists_start hother
  have hC := h.isCycle_of_mem hcycle
  have hO := h.isCycle_of_mem hother
  have hst : s = t := by
    apply Nat.le_antisymm
    · exact hleast t (hO.subset_of_mem hC hx' hx ht)
    · exact hleast' s (hC.subset_of_mem hO hx hx' hs)
  rw [hcycleOf, hotherOf, hst]

/-- No two of the cycles listed have a location in common. -/
theorem Valid.pairwise_cycles : a.cycles.Pairwise List.Disjoint := by
  unfold cycles
  rw [List.pairwise_filterMap]
  refine List.nodup_range.imp_of_mem ?_
  intro s t hs ht hne c hc d hd x hxc hxd
  rw [List.mem_range] at hs ht
  rw [contribution_eq_some] at hc hd
  have hcmem : c ∈ a.cycles := mem_cycles.mpr ⟨s, hs, hc⟩
  have hdmem : d ∈ a.cycles := mem_cycles.mpr ⟨t, ht, hd⟩
  obtain rfl : c = d := h.cycles_eq_of_mem hcmem hdmem hxc hxd
  have hsc : s ∈ c := hc.2.1 ▸ (h.isCycle_cycleOf (h.size_eq ▸ hs)).2
  have htc : t ∈ c := hd.2.1 ▸ (h.isCycle_cycleOf (h.size_eq ▸ ht)).2
  exact hne (Nat.le_antisymm (hc.2.2 t htc) (hd.2.2 s hsc))

/-- Every location that is not solved is on a cycle listed. -/
theorem Valid.exists_cycle (hx : x < count) (hsolved : a.isSolvedAt x = false) :
    ∃ cycle ∈ a.cycles, x ∈ cycle := by
  obtain ⟨hC, hxC⟩ := h.isCycle_cycleOf hx
  have hex : ∃ s, s ∈ cycleOf a.holders x := ⟨x, hxC⟩
  let s := Nat.find hex
  have hs : s ∈ cycleOf a.holders x := Nat.find_spec hex
  have hlt : s < a.size := hC.lt_size s hs
  obtain ⟨hS, hsS⟩ := h.isCycle_cycleOf (h.size_eq ▸ hlt)
  have hsub : cycleOf a.holders s ⊆ cycleOf a.holders x := hS.subset_of_mem hC hsS hs
  have hxS : x ∈ cycleOf a.holders s := hC.subset_of_mem hS hs hsS hxC
  refine ⟨cycleOf a.holders s, mem_cycles.mpr ⟨s, hlt, ?_, rfl, ?_⟩, hxS⟩
  · by_contra hsolved'
    have heq := hS.eq_of_isSolvedAt hsS (Bool.eq_true_of_not_eq_false hsolved') hxS
    exact hsolved' (heq ▸ hsolved)
  · intro y hy
    exact Nat.find_min' hex (hsub hy)

end Valid

end CubeLang.Arrangement
