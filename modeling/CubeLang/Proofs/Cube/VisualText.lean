import CubeLang.Proofs.Cube.CycleText

/-!
# What the visual text leaves out

The visual text of a state is the text of the state in which no side part is twisted. The cycles of
that state are those of the state itself, without the side parts that only have a twist; the twists
that a part gathers on its way are nought, so that no sign is written.
-/

set_option autoImplicit false

namespace CubeLang

namespace Arrangement

variable {kind : PartKind} {count : Nat} {a : Arrangement}

/-- The arrangement with the same parts, none of which is twisted. -/
def untwisted (a : Arrangement) : Arrangement := a.map fun s => ⟨s.part, 0⟩

@[simp] theorem size_untwisted : a.untwisted.size = a.size := by simp [untwisted]

@[simp] theorem slot_untwisted (i : Nat) : a.untwisted.slot i = ⟨(a.slot i).part, 0⟩ := by
  by_cases hi : i < a.size <;> simp [slot, untwisted, hi]

@[simp] theorem parts_untwisted : a.untwisted.parts = a.parts := by
  simp [parts, untwisted, Function.comp_def]

theorem Valid.untwisted (h : a.Valid kind count) : a.untwisted.Valid kind count := by
  rw [valid_iff] at h ⊢
  obtain ⟨hsize, hparts, -⟩ := h
  refine ⟨by rw [size_untwisted, hsize], ?_, ?_⟩
  · simpa using hparts
  · intro i _
    simpa using modulus_pos kind

/-! ## Cycles -/

/-- Where the parts are does not depend on their twists. -/
theorem holders_untwisted : a.untwisted.holders = a.holders := by
  have hholder : ∀ part, a.untwisted.holder part = a.holder part := by
    intro part
    simp [holder, untwisted, Function.comp_def]
  unfold holders
  simp only [hholder]
  refine Array.ext (by simp) ?_
  intro i _ _
  simp

theorem isSolvedAt_untwisted {i : Nat} : a.untwisted.isSolvedAt i = true ↔ a.source i = i := by
  simp [isSolvedAt, source]

/-- A location is alone on its way if it holds its own part, whatever its twist. -/
theorem Valid.length_cycleOf_eq_one_iff (h : a.Valid kind count) {start : Nat}
    (hstart : start < count) : (cycleOf a.holders start).length = 1 ↔ a.source start = start := by
  obtain ⟨hcycle, hmem⟩ := h.isCycle_cycleOf hstart
  rw [← Nat.dvd_one, ← hcycle.iterate_eq_self_iff hmem 1, Function.iterate_one]

/-- Without their twists the parts that are not out of place have no cycle, and the others have the
cycle that they had. -/
theorem Valid.cycles_untwisted (h : a.Valid kind count) :
    a.untwisted.cycles = a.cycles.filter fun cycle => cycle.length ≠ 1 := by
  unfold cycles
  simp only [holders_untwisted, size_untwisted, List.filter_filterMap]
  refine List.filterMap_congr ?_
  intro start hstart
  have hlength := h.length_cycleOf_eq_one_iff (h.size_eq ▸ List.mem_range.mp hstart)
  by_cases hplace : a.source start = start
  · -- A part in its place is alone on its way.
    have hseen : a.untwisted.isSolvedAt start = true := isSolvedAt_untwisted.mpr hplace
    rw [if_pos hseen, eq_comm, Option.filter_eq_none_iff]
    intro cycle hcycle
    obtain ⟨-, rfl, -⟩ := contribution_eq_some.mp hcycle
    simpa using hlength.mpr hplace
  · have hseen : ¬a.untwisted.isSolvedAt start = true := isSolvedAt_untwisted.not.mpr hplace
    have hsolved : ¬a.isSolvedAt start = true := by
      intro hslot
      have hslot' : a.slot start = ⟨start, 0⟩ := by simpa [isSolvedAt] using hslot
      exact hplace (congrArg Slot.part hslot')
    have hlong : decide ((cycleOf a.holders start).length ≠ 1) = true := by
      simpa using hlength.not.mpr hplace
    rw [if_neg hseen, if_neg hsolved]
    split
    · rw [Option.filter_some, if_pos hlong]
    · rw [Option.filter_none]

/-- A cycle of untwisted parts gathers no twist. -/
theorem gatheredTwists_untwisted (m : Nat) (rest : List Nat) :
    gatheredTwists a.untwisted m 0 rest = rest.map fun _ => 0 := by
  induction rest with
  | nil => rfl
  | cons x rest ih => simp only [gatheredTwists, slot_untwisted, Nat.add_zero, Nat.zero_mod, ih,
      List.map_cons]

end Arrangement

namespace Cube

variable {n : Nat} {c : Cube}

/-- The state in which no side part is twisted. -/
def untwisted (c : Cube) : Cube := { c with sides := c.sides.untwisted }

theorem Valid.untwisted (hc : c.Valid n) : c.untwisted.Valid n := by
  refine ⟨hc.1, ?_⟩
  intro kind
  cases kind with
  | side => exact (hc.2 .side).untwisted
  | edge => exact hc.2 .edge
  | corner => exact hc.2 .corner

/-! ## Texts -/

/-- Untwisted parts are written without signs, wherever they stand in their cycle. -/
theorem items_written_untwisted (kind : PartKind) (a : Arrangement) (cycle : List Nat) :
    (PartCycle.written kind a.untwisted cycle).items =
      cycle.map fun location => ⟨location, 0⟩ := by
  cases cycle with
  | nil => rfl
  | cons first rest =>
    simp only [PartCycle.written, Arrangement.gatheredTwists_untwisted, List.zipWith_map_right,
      List.zipWith_self, List.map_cons]

/-- No twist is left over at the end of their cycle. -/
theorem sign_written_untwisted (kind : PartKind) (a : Arrangement) (cycle : List Nat) :
    (PartCycle.written kind a.untwisted cycle).sign = 0 := by
  cases cycle with
  | nil => rfl
  | cons first rest =>
    have hlast : (rest.map fun _ => 0).getLastD 0 = 0 := by
      rw [List.getLastD_eq_getLast?]
      cases hlast : (rest.map fun _ => 0).getLast? with
      | none => rfl
      | some twist =>
        obtain ⟨_, -, rfl⟩ := List.mem_map.mp (List.mem_of_getLast? hlast)
        rfl
    simp only [PartCycle.written, Arrangement.gatheredTwists_untwisted, Arrangement.slot_untwisted,
      hlast]
    exact Nat.zero_mod _

/-- A cycle of side parts written without its signs is written as if no part were twisted. -/
theorem text_written_untwisted (k : CycleTokens) (a : Arrangement) {cycle : List Nat}
    (hne : cycle ≠ []) :
    (PartCycle.written .side a.untwisted cycle).text n k .side =
      k.cycle (cycleItems a 4 (sideName n k fun _ => "") cycle).1 "" := by
  have hitems := PartCycle.cycleItems_eq .side a (sideName n k fun _ => "") hne
  have hmodulus : PartKind.side.modulus = 4 := rfl
  rw [hmodulus] at hitems
  -- Both name the locations alone, be it that no twist is there or that none is shown.
  have hnames : (PartCycle.written .side a cycle).items.map
      (fun i => sideName n k (fun _ => "") i.location i.orientation) =
      cycle.map fun location => PartCycle.itemText n k .side ⟨location, 0⟩ := by
    have hlocations := PartCycle.locations_written .side a cycle
    conv_rhs => rw [← hlocations, PartCycle.locations, List.map_map]
    rfl
  rw [hitems, PartCycle.text, items_written_untwisted, sign_written_untwisted, hnames, List.map_map]
  rfl

/-- The cycles of side parts that are seen are those of the untwisted state. -/
theorem Valid.sideTexts_visual (hc : c.Valid n) (k : CycleTokens) :
    c.sideTexts k true = c.untwisted.sideTexts k false := by
  have hcycles : c.untwisted.sides.cycles = c.sides.cycles.filter fun cycle => cycle.length ≠ 1 :=
    (hc.2 .side).cycles_untwisted
  have hswap : ∀ p q : List Nat → Bool, (c.sides.cycles.filter p).filter q =
      (c.sides.cycles.filter q).filter p := by
    intro p q
    simp only [List.filter_filter, Bool.and_comm]
  rw [hc.untwisted.sideTexts_eq, sideCycles, sideTexts, List.map_map, hcycles]
  simp only [if_true, List.filter_append, hswap _ fun cycle => decide (cycle.length ≠ 1)]
  refine List.map_congr_left ?_
  intro cycle hcycle
  have hmem : cycle ∈ c.sides.cycles := by
    rcases List.mem_append.mp hcycle with hone | hmore
    · exact List.mem_of_mem_filter (List.mem_of_mem_filter hone)
    · exact List.mem_of_mem_filter (List.mem_of_mem_filter hmore)
  obtain ⟨j, hturned⟩ := Arrangement.turnedTo_eq_rotate (leastPlace cycle) cycle
  have hne : turnedTo (leastPlace cycle) cycle ≠ [] := by
    rw [hturned]
    exact (((hc.2 .side).isCycle_of_mem hmem).rotate j).ne_nil
  have htext := text_written_untwisted (n := n) k c.sides hne
  rw [Function.comp_apply, hc.1]
  exact htext.symm

/-- The visual text of a state is the text of the state without the twists of its side parts. -/
theorem Valid.visualText_eq (hc : c.Valid n) (k : CycleTokens) :
    c.visualText k = c.untwisted.text k := by
  have hsides : c.visualSideText k = c.untwisted.sideText k :=
    congrArg joined (hc.sideTexts_visual k)
  unfold visualText text
  rw [hsides]
  rfl

end Cube

end CubeLang
