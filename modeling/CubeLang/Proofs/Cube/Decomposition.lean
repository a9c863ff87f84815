import CubeLang.Cube.CycleText
import CubeLang.Proofs.Cube.Cycle
import CubeLang.Proofs.Cube.PartCycle

/-!
# Rebuilding an arrangement from its cycles

A cycle of an arrangement is written as a cycle of parts: each location with the twist that the
first part has when it comes there, and the twist left over as the sign. Carried out, it does to the
locations of the cycle what the arrangement does to them, and nothing else. Cycles without a
location in common that cover what is not solved make the whole arrangement out of the solved one.
-/

set_option autoImplicit false

namespace CubeLang

namespace Arrangement

variable {kind : PartKind} {count : Nat} {a : Arrangement} {cycle done : List Nat}

/-! ## Arrangements of some locations -/

/-- The arrangement that agrees with another one at some locations and is solved elsewhere. -/
def restrict (a : Arrangement) (locations : List Nat) : Arrangement :=
  Array.ofFn fun i : Fin a.size => if i.val ∈ locations then a.slot i else ⟨i, 0⟩

@[simp] theorem size_restrict : (a.restrict cycle).size = a.size := by
  simp [restrict]

theorem slot_restrict (i : Nat) :
    (a.restrict cycle).slot i = if i ∈ cycle then a.slot i else ⟨i, 0⟩ := by
  by_cases hi : i < a.size
  · rw [slot_eq_getElem (by simpa using hi)]
    simp only [restrict, Array.getElem_ofFn]
  · have hout : ∀ b : Arrangement, b.size = a.size → b.slot i = ⟨i, 0⟩ := by
      intro b hb
      have hi' : ¬i < b.size := by rwa [hb]
      simp [slot, hi']
    rw [hout _ size_restrict, hout a rfl, ite_self]

@[simp] theorem restrict_nil : a.restrict [] = solved a.size := by
  refine ext_slot (by simp) ?_
  intro i _
  rw [slot_restrict, slot_solved, if_neg List.not_mem_nil]

theorem restrict_eq_self (h : ∀ i < a.size, a.isSolvedAt i = false → i ∈ cycle) :
    a.restrict cycle = a := by
  refine ext_slot size_restrict ?_
  intro i hi
  rw [size_restrict] at hi
  rw [slot_restrict]
  split
  · rfl
  · rename_i hmem
    cases hsolved : a.isSolvedAt i with
    | false => exact absurd (h i hi hsolved) hmem
    | true =>
      have hslot : a.slot i = ⟨i, 0⟩ := by simpa [isSolvedAt] using hsolved
      exact hslot.symm

/-- A cycle of an arrangement is done on top of what was done at other locations. -/
theorem Valid.restrict_andThen (h : a.Valid kind count) (hcycle : a.IsCycle cycle)
    (hdisjoint : List.Disjoint done cycle) :
    (a.restrict done).andThen kind.modulus (a.restrict cycle) = a.restrict (done ++ cycle) := by
  refine ext_slot (by simp) ?_
  intro i hi
  simp only [size_andThen, size_restrict, h.size_eq] at hi
  have htwist := h.twist_lt hi
  have hm := modulus_pos kind
  rw [slot_andThen (by simpa [h.size_eq] using hi), slot_restrict i, slot_restrict i]
  by_cases hmem : i ∈ cycle
  · -- What comes here comes from the cycle too, where nothing was done yet.
    have hsource : (a.slot i).part ∉ done := fun hdone =>
      hdisjoint hdone (hcycle.source_mem hmem)
    simp only [hmem, if_true, List.mem_append, or_true]
    rw [slot_restrict, if_neg hsource, Nat.zero_add, Nat.mod_eq_of_lt htwist]
  · simp only [hmem, if_false, List.mem_append, or_false]
    rw [slot_restrict, Nat.add_zero]
    split
    · rw [Nat.mod_eq_of_lt htwist]
    · rw [Nat.zero_mod]

/-! ## Cycles that make an arrangement -/

/-- Cycles without a location in common that cover what is not solved. -/
structure MadeOf (a : Arrangement) (cycles : List (List Nat)) : Prop where
  isCycle : ∀ cycle ∈ cycles, a.IsCycle cycle
  nodup : cycles.flatten.Nodup
  covers : ∀ i < a.size, a.isSolvedAt i = false → i ∈ cycles.flatten

theorem Valid.madeOf_cycles (h : a.Valid kind count) : a.MadeOf a.cycles where
  isCycle := fun _ hcycle => h.isCycle_of_mem hcycle
  nodup := List.nodup_flatten.mpr
    ⟨fun _ hcycle => (h.isCycle_of_mem hcycle).nodup, h.pairwise_cycles⟩
  covers := by
    intro i hi hsolved
    obtain ⟨cycle, hcycle, hmem⟩ := h.exists_cycle (h.size_eq ▸ hi) hsolved
    exact List.mem_flatten.mpr ⟨cycle, hcycle, hmem⟩

/-- The order of the cycles does not matter. -/
theorem MadeOf.perm {cycles cycles' : List (List Nat)} (h : a.MadeOf cycles)
    (hperm : cycles.Perm cycles') : a.MadeOf cycles' where
  isCycle := fun cycle hcycle => h.isCycle cycle (hperm.mem_iff.mpr hcycle)
  nodup := hperm.flatten.nodup_iff.mp h.nodup
  covers := fun i hi hsolved => hperm.flatten.mem_iff.mp (h.covers i hi hsolved)

/-- Nor does it matter from which of its locations on a cycle is written. -/
theorem MadeOf.rotated {cycles cycles' : List (List Nat)} (h : a.MadeOf cycles)
    (hrotated : List.Forall₂ (fun c c' => ∃ k, c' = c.rotate k) cycles cycles') :
    a.MadeOf cycles' := by
  have hperm : cycles.flatten.Perm cycles'.flatten := by
    clear h
    induction hrotated with
    | nil => rfl
    | cons hhead _ ih =>
      obtain ⟨k, rfl⟩ := hhead
      rw [List.flatten_cons, List.flatten_cons]
      exact (List.rotate_perm _ k).symm.append ih
  refine ⟨?_, hperm.nodup_iff.mp h.nodup, ?_⟩
  · intro cycle' hcycle'
    obtain ⟨cycle, hcycle, k, rfl⟩ : ∃ cycle ∈ cycles, ∃ k, cycle' = cycle.rotate k := by
      clear h hperm
      induction hrotated with
      | nil => contradiction
      | cons hhead _ ih =>
        rcases List.mem_cons.mp hcycle' with rfl | hmem
        · exact ⟨_, List.mem_cons_self, hhead⟩
        · obtain ⟨cycle, hcycle, hk⟩ := ih hmem
          exact ⟨cycle, List.mem_cons_of_mem _ hcycle, hk⟩
    exact (h.isCycle cycle hcycle).rotate k
  · intro i hi hsolved
    exact hperm.mem_iff.mp (h.covers i hi hsolved)

theorem turnedTo_eq_rotate {α : Type} (k : Nat) (l : List α) : ∃ j, turnedTo k l = l.rotate j := by
  unfold turnedTo
  rcases Nat.le_total k l.length with hk | hk
  · exact ⟨k, (List.rotate_eq_drop_append_take hk).symm⟩
  · refine ⟨0, ?_⟩
    rw [List.drop_of_length_le hk, List.take_of_length_le hk, List.rotate_zero, List.nil_append]

end Arrangement

/-! ## Cycles as cycles of parts -/

namespace PartCycle

variable {kind : PartKind} {count : Nat} {a : Arrangement} {cycle : List Nat}

/-- The cycle of parts that a cycle of an arrangement is written as. -/
def written (kind : PartKind) (a : Arrangement) : List Nat → PartCycle
  | [] => { kind := some kind }
  | first :: rest =>
    let twists := gatheredTwists a kind.modulus 0 rest
    { kind := some kind
      sign := (twists.getLastD 0 + (a.slot first).twist) % kind.modulus
      items := ⟨first, 0⟩ :: List.zipWith Item.mk rest twists }

theorem map_location_zipWith (a : Arrangement) (m twist : Nat) (rest : List Nat) :
    (List.zipWith Item.mk rest (gatheredTwists a m twist rest)).map Item.location = rest := by
  induction rest generalizing twist with
  | nil => rfl
  | cons x rest ih => simp only [gatheredTwists, List.zipWith_cons_cons, List.map_cons, ih]

theorem locations_written (kind : PartKind) (a : Arrangement) (cycle : List Nat) :
    (written kind a cycle).locations = cycle := by
  cases cycle with
  | nil => rfl
  | cons first rest => simp only [written, locations, List.map_cons, map_location_zipWith]

theorem mod_sub_emod (twist gathered m : Nat) :
    ((((gathered + twist) % m : Nat) : Int) - gathered) % m = (twist : Int) % m := by
  rw [Int.natCast_mod, Int.sub_emod, Int.emod_emod, ← Int.sub_emod]
  congr 1
  omega

/-- The twist of each step is the one at its target, since the sign makes up for what the first
part has gathered when it comes round. -/
theorem twist_stepsFrom (a : Arrangement) (m : Nat) (first here : Item) (rest : List Nat)
    (hfirst : first.orientation = 0) (s : Step)
    (hs : s ∈ stepsFrom first
      (((gatheredTwists a m here.orientation rest).getLastD here.orientation +
        (a.slot first.location).twist) % m) here
      (List.zipWith Item.mk rest (gatheredTwists a m here.orientation rest))) :
    s.twist % m = (a.slot s.target).twist % m := by
  induction rest generalizing here with
  | nil =>
    obtain rfl := List.mem_singleton.mp hs
    simp only [gatheredTwists, List.getLastD_nil, hfirst]
    rw [← mod_sub_emod _ here.orientation]
    congr 1
    omega
  | cons x rest ih =>
    simp only [gatheredTwists, List.zipWith_cons_cons, List.getLastD_cons, stepsFrom] at hs
    rcases List.mem_cons.mp hs with rfl | hs
    · exact mod_sub_emod _ _ _
    · exact ih ⟨x, (here.orientation + (a.slot x).twist) % m⟩ hs

section Valid

variable (h : a.Valid kind count) (hcycle : a.IsCycle cycle)
include h hcycle

/-- The steps of a cycle take each of its locations what the arrangement takes it. -/
theorem step_written {s : Step} (hs : s ∈ (written kind a cycle).steps) :
    s.target ∈ cycle ∧
      a.slot s.target = ⟨s.source, (s.twist % kind.modulus).toNat⟩ := by
  have hsource := map_source_steps (written kind a cycle)
  have htarget := map_target_steps (written kind a cycle)
  rw [locations_written] at hsource htarget
  have hmem : s.target ∈ cycle := by
    rw [← List.mem_rotate (n := 1), ← htarget]
    exact List.mem_map_of_mem hs
  refine ⟨hmem, ?_⟩
  have hpart : a.source s.target = s.source := by
    have hlinked := hcycle.linked
    rw [← htarget, List.map_map] at hlinked
    exact List.map_inj_left.mp (hlinked.trans hsource.symm) s hs
  have htwist : s.twist % kind.modulus = (a.slot s.target).twist % kind.modulus := by
    cases cycle with
    | nil => contradiction
    | cons first rest =>
      exact twist_stepsFrom a kind.modulus ⟨first, 0⟩ ⟨first, 0⟩ rest rfl s hs
  have hlt := h.twist_lt (h.size_eq ▸ hcycle.lt_size _ hmem)
  have hslot : a.slot s.target = ⟨a.source s.target, (a.slot s.target).twist⟩ := rfl
  rw [hslot, hpart, htwist, ← Int.natCast_mod, Int.toNat_natCast, Nat.mod_eq_of_lt hlt]

/-- A cycle of an arrangement, carried out as a cycle of parts, does there what the arrangement
does, and nothing elsewhere. -/
theorem arrangement_written :
    arrangement kind count (written kind a cycle).steps = a.restrict cycle := by
  have htarget := map_target_steps (written kind a cycle)
  rw [locations_written] at htarget
  have hnodup : ((written kind a cycle).steps.map Step.target).Nodup := by
    rw [htarget]
    exact List.nodup_rotate.mpr hcycle.nodup
  refine Arrangement.ext_slot (by simp [h.size_eq]) ?_
  intro i hi
  rw [size_arrangement] at hi
  rw [Arrangement.slot_restrict]
  split
  · rename_i hmem
    have hmem' : i ∈ (written kind a cycle).steps.map Step.target := by
      rw [htarget]
      exact List.mem_rotate.mpr hmem
    obtain ⟨s, hs, rfl⟩ := List.mem_map.mp hmem'
    rw [slot_arrangement_of_mem hnodup hs hi, (step_written h hcycle hs).2]
  · rename_i hmem
    apply slot_arrangement_of_not_mem
    rw [htarget]
    exact fun hmem' => hmem (List.mem_rotate.mp hmem')

theorem act?_written {c : Cube} (hc : c.count kind = count) :
    (written kind a cycle).act? false c = some (c.rearrange kind (a.restrict cycle)) := by
  have hkind : (written kind a cycle).kind = some kind := by
    cases cycle <;> rfl
  have hempty : (written kind a cycle).items.isEmpty = false := by
    cases cycle with
    | nil => exact absurd rfl hcycle.ne_nil
    | cons first rest => rfl
  have hall : ((written kind a cycle).items.all fun item => item.location < count) = true := by
    rw [List.all_eq_true]
    intro item hitem
    have hmem : item.location ∈ (written kind a cycle).locations := List.mem_map_of_mem hitem
    rw [locations_written] at hmem
    simpa [h.size_eq] using hcycle.lt_size _ hmem
  unfold act?
  simp only [hkind, hempty, hc, hall, arrangement_written h hcycle, if_true, Bool.false_eq_true,
    if_false]

end Valid

end PartCycle

/-! ## Carrying out all cycles -/

namespace Cube

variable {n : Nat} {c : Cube} {kind : PartKind} {a : Arrangement}

/-- The cube after some cycles of parts, one after the other; none if one cannot be done. -/
def actAll? (c : Cube) (cycles : List PartCycle) : Option Cube :=
  cycles.foldlM (fun c cycle => cycle.act? false c) c

theorem setArrangement_setArrangement (kind : PartKind) (a b : Arrangement) :
    (c.setArrangement kind a).setArrangement kind b = c.setArrangement kind b := by
  cases kind <;> rfl

/-- The cycles of an arrangement make it out of the solved one. -/
theorem actAll?_written {cycles : List (List Nat)} {done : List Nat}
    (h : a.Valid kind (kind.count n)) (hc : c.layerCount = n)
    (hcycles : ∀ cycle ∈ cycles, a.IsCycle cycle) (hnodup : (done ++ cycles.flatten).Nodup) :
    (c.setArrangement kind (a.restrict done)).actAll? (cycles.map (PartCycle.written kind a)) =
      some (c.setArrangement kind (a.restrict (done ++ cycles.flatten))) := by
  induction cycles generalizing done with
  | nil =>
    rw [List.flatten_nil, List.append_nil]
    rfl
  | cons cycle cycles ih =>
    have hcycle := hcycles cycle List.mem_cons_self
    rw [List.flatten_cons, ← List.append_assoc] at hnodup ⊢
    have hdisjoint : List.Disjoint done cycle :=
      List.disjoint_of_nodup_append hnodup.of_append_left
    have hcount : (c.setArrangement kind (a.restrict done)).count kind = kind.count n := by
      rw [count, layerCount_setArrangement, hc]
    have hact : (PartCycle.written kind a cycle).act? false
        (c.setArrangement kind (a.restrict done)) =
        some (c.setArrangement kind (a.restrict (done ++ cycle))) := by
      rw [PartCycle.act?_written h hcycle hcount, rearrange, setArrangement_setArrangement,
        arrangement_setArrangement, if_pos rfl, h.restrict_andThen hcycle hdisjoint]
    rw [List.map_cons, actAll?, List.foldlM_cons, hact]
    exact ih (fun cycle hmem => hcycles cycle (List.mem_cons_of_mem _ hmem)) hnodup

/-- The cycles that make an arrangement put it in the place of the solved one. -/
theorem actAll?_madeOf {cycles : List (List Nat)} (h : a.Valid kind (kind.count n))
    (hc : c.layerCount = n) (hsolved : c.arrangement kind = .solved (kind.count n))
    (hcycles : a.MadeOf cycles) :
    c.actAll? (cycles.map (PartCycle.written kind a)) = some (c.setArrangement kind a) := by
  have hstart : c.setArrangement kind (a.restrict []) = c := by
    refine ext_arrangement (by simp) ?_
    intro other
    rw [arrangement_setArrangement, Arrangement.restrict_nil, h.size_eq, ← hsolved]
    split
    · rename_i heq
      rw [heq]
    · rfl
  have hnodup : ([] ++ cycles.flatten).Nodup := hcycles.nodup
  have hact := actAll?_written h hc hcycles.isCycle hnodup
  rwa [hstart, List.nil_append, Arrangement.restrict_eq_self hcycles.covers] at hact

/-- The cycles that make the arrangements of a state, kind by kind, make the state out of the solved
cube. -/
theorem Valid.actAll?_madeOf (hc : c.Valid n) {corners edges sides : List (List Nat)}
    (hcorners : c.corners.MadeOf corners) (hedges : c.edges.MadeOf edges)
    (hsides : c.sides.MadeOf sides) :
    (solved n).actAll? (corners.map (PartCycle.written .corner c.corners) ++
      edges.map (PartCycle.written .edge c.edges) ++
      sides.map (PartCycle.written .side c.sides)) = some c := by
  let first := (solved n).setArrangement .corner c.corners
  let second := first.setArrangement .edge c.edges
  have happend : ∀ (b : Cube) (cs cs' : List PartCycle),
      b.actAll? (cs ++ cs') = (b.actAll? cs).bind fun b => b.actAll? cs' := by
    intro b cs cs'
    exact List.foldlM_append
  have hfirst : (solved n).actAll? (corners.map (PartCycle.written .corner c.corners)) =
      some first :=
    Cube.actAll?_madeOf (hc.2 .corner) rfl rfl hcorners
  have hsecond : first.actAll? (edges.map (PartCycle.written .edge c.edges)) = some second :=
    Cube.actAll?_madeOf (hc.2 .edge) rfl rfl hedges
  have hthird : second.actAll? (sides.map (PartCycle.written .side c.sides)) =
      some (second.setArrangement .side c.sides) :=
    Cube.actAll?_madeOf (hc.2 .side) rfl rfl hsides
  rw [happend, happend, hfirst, Option.bind_some, hsecond, Option.bind_some, hthird]
  have hall : second.setArrangement .side c.sides = c := by
    refine ext_arrangement hc.1.symm ?_
    intro kind
    cases kind <;> rfl
  rw [hall]

end Cube

end CubeLang
