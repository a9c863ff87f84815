import CubeLang.Cube.PartCycle
import CubeLang.Proofs.Control
import CubeLang.Proofs.Cube.Composition
import Mathlib.Data.List.Rotate

/-!
# What a cycle of parts does

A cycle built part by part names no part twice. The steps of its parts then lead from each of its
locations to another of them, so that carrying it out is rearranging by a valid arrangement, which
does not depend on the state of the cube.
-/

set_option autoImplicit false

namespace CubeLang

namespace PartCycle

variable {kind : PartKind} {sign : Option Symbol} {faces : List Symbol} {number layerCount : Int}
variable {c c' : PartCycle} {steps : List Step} {count : Nat}

/-! ## Adding parts -/

/-- The end of adding a part: it is added unless it is refused or among `items` already. -/
def addNew (items : List Item) (c : PartCycle) :
    Except Fault Item → EStateM.Result Fault PartCycle Unit
  | .error fault => .error fault c
  | .ok item =>
    if items.any fun there => there.location = item.location then .error .repeatedPart c
    else .ok () { c with items := c.items ++ [item] }

/-- The end of adding a part, as the program does it. -/
theorem addNew_eq (c : PartCycle) (items : List Item) (r : Except Fault Item) :
    (match r with
      | .error fault => throw fault
      | .ok item => do
        if items.any fun there => there.location = item.location then throw .repeatedPart
        modify fun c => { c with items := c.items ++ [item] } : EStateM Fault PartCycle Unit) c =
    addNew items c r := by
  cases r with
  | error fault => rfl
  | ok item =>
    simp only [addNew]
    split <;> rfl

/-- Adding a part, check by check. -/
theorem addItem_eq (c : PartCycle) : addItem kind sign faces number layerCount c =
    let c₁ := { c with kind := c.kind <|> some kind }
    if c₁.kind ≠ some kind then .error .otherKind c₁
    else match signTwist sign kind with
      | .error fault => .error fault c₁
      | .ok twist =>
        if c.items ≠ [] ∧ kind ≠ .side ∧ twist ≠ 0 then .error .sign c₁
        else addNew c.items (if c.items = [] then { c₁ with sign := twist } else c₁)
          (c₁.item kind sign twist faces number layerCount) := by
  let c₁ : PartCycle := { c with kind := c.kind <|> some kind }
  have hkind : (modify fun c => { c with kind := c.kind <|> some kind } :
      EStateM Fault PartCycle PUnit) c = .ok () c₁ := rfl
  have hget : (get : EStateM Fault PartCycle PartCycle) c₁ = .ok c₁ c₁ := rfl
  unfold addItem
  rw [bind_of_ok hkind, bind_of_ok hget]
  split
  · rename_i hother
    rw [if_pos hother]
    rfl
  · rename_i hsame
    rw [if_neg hsame]
    cases signTwist sign kind with
    | error fault => rfl
    | ok twist =>
      have hpure : (pure twist : EStateM Fault PartCycle Nat) c₁ = .ok twist c₁ := rfl
      refine (bind_of_ok hpure).trans ?_
      by_cases hempty : c.items = []
      · have hfirst : c₁.items.isEmpty = true := List.isEmpty_iff.mpr hempty
        simp only [hfirst, if_true]
        rw [if_neg (fun hmore => hmore.1 hempty), if_pos hempty]
        exact addNew_eq { c₁ with sign := twist } c.items _
      · have hlater : c₁.items.isEmpty = false := by simpa using hempty
        simp only [hlater, Bool.false_eq_true, if_false, Bool.and_eq_true, decide_eq_true_eq]
        rw [if_neg hempty]
        by_cases hsigned : kind ≠ .side ∧ twist ≠ 0
        · rw [if_pos hsigned, if_pos ⟨hempty, hsigned⟩]
          rfl
        · rw [if_neg hsigned, if_neg (fun hmore => hsigned hmore.2)]
          exact addNew_eq c₁ c.items _

/-- The cycles that come about by adding parts, accepted or refused. -/
inductive Built : PartCycle → Prop where
  | empty : Built {}
  | accepted {c c' : PartCycle} {kind : PartKind} {sign : Option Symbol} {faces : List Symbol}
      {number layerCount : Int} (h : Built c)
      (hadd : addItem kind sign faces number layerCount c = .ok () c') : Built c'
  | refused {c c' : PartCycle} {kind : PartKind} {sign : Option Symbol} {faces : List Symbol}
      {number layerCount : Int} {fault : Fault} (h : Built c)
      (hadd : addItem kind sign faces number layerCount c = .error fault c') : Built c'

/-- The locations of a cycle in order. -/
def locations (c : PartCycle) : List Nat := c.items.map Item.location

/-- The state in which adding a part ends. -/
def after : EStateM.Result Fault PartCycle Unit → PartCycle
  | .ok _ c => c
  | .error _ c => c

/-- Adding a part adds at most one location, which was not there before. -/
theorem nodup_after_addItem {r : EStateM.Result Fault PartCycle Unit}
    (hadd : addItem kind sign faces number layerCount c = r) (h : c.locations.Nodup) :
    (after r).locations.Nodup := by
  subst hadd
  have hnew : ∀ c₁ : PartCycle, c₁.items = c.items → ∀ r,
      (after (addNew c.items c₁ r)).locations.Nodup := by
    intro c₁ hitems r
    have hsame : c₁.locations = c.locations := congrArg (List.map Item.location) hitems
    cases r with
    | error fault => exact hsame ▸ h
    | ok item =>
      simp only [addNew]
      split
      · exact hsame ▸ h
      · rename_i hany
        have hfresh : item.location ∉ c.locations := by
          intro hmem
          obtain ⟨there, hthere, heq⟩ := List.mem_map.mp hmem
          exact hany (List.any_eq_true.mpr ⟨there, hthere, by simpa using heq⟩)
        have hlocations : (after (.ok () { c₁ with items := c₁.items ++ [item] })).locations =
            c.locations ++ [item.location] := by
          simp [after, locations, hitems]
        rw [hlocations]
        exact h.append (List.nodup_singleton _) (by simpa using hfresh)
  simp only [addItem_eq]
  split
  · exact h
  · cases signTwist sign kind with
    | error fault => exact h
    | ok twist =>
      simp only
      split
      · exact h
      · apply hnew
        split <;> rfl

/-- A cycle built part by part names no location twice. -/
theorem Built.nodup_locations (h : Built c) : c.locations.Nodup := by
  induction h with
  | empty => exact List.nodup_nil
  | accepted _ hadd ih => exact nodup_after_addItem hadd ih
  | refused _ hadd ih => exact nodup_after_addItem hadd ih

/-! ## The steps of a cycle -/

/-- The steps from a part on start at it and at the parts behind it. -/
theorem map_source_stepsFrom (first : Item) (sign : Nat) (here : Item) (rest : List Item) :
    (stepsFrom first sign here rest).map Step.source = (here :: rest).map Item.location := by
  induction rest generalizing here with
  | nil => rfl
  | cons next rest ih =>
    rw [stepsFrom, List.map_cons, ih]
    rfl

/-- The steps from a part on end at the parts behind it and at the first one. -/
theorem map_target_stepsFrom (first : Item) (sign : Nat) (here : Item) (rest : List Item) :
    (stepsFrom first sign here rest).map Step.target =
      rest.map Item.location ++ [first.location] := by
  induction rest generalizing here with
  | nil => rfl
  | cons next rest ih => rw [stepsFrom, List.map_cons, ih, List.map_cons, List.cons_append]

/-- The steps of a cycle start at its locations. -/
theorem map_source_steps (c : PartCycle) : c.steps.map Step.source = c.locations := by
  unfold steps locations
  split
  · rename_i hitems
    rw [hitems]
    rfl
  · rename_i first rest hitems
    rw [hitems, map_source_stepsFrom]

/-- The steps of a cycle end each at the location behind its own. -/
theorem map_target_steps (c : PartCycle) : c.steps.map Step.target = c.locations.rotate 1 := by
  unfold steps locations
  split
  · rename_i hitems
    rw [hitems]
    rfl
  · rename_i first rest hitems
    rw [hitems, map_target_stepsFrom, List.map_cons, List.rotate_cons_succ, List.rotate_zero]

/-! ## The arrangement of steps -/

@[simp] theorem size_arrangement : (arrangement kind count steps).size = count := by
  simp [arrangement]

/-- The place of a location in the arrangement of steps. -/
theorem slot_arrangement {i : Nat} (hi : i < count) : (arrangement kind count steps).slot i =
    match steps.find? fun s => s.target = i with
    | some s => ⟨s.source, (s.twist % kind.modulus).toNat⟩
    | none => ⟨i, 0⟩ := by
  rw [Arrangement.slot_eq_getElem (by simpa using hi)]
  exact Array.getElem_ofFn _

/-- A location to which no step leads keeps its part. -/
theorem slot_arrangement_of_not_mem {i : Nat} (h : i ∉ steps.map Step.target) :
    (arrangement kind count steps).slot i = ⟨i, 0⟩ := by
  by_cases hi : i < count
  · have hnone : (steps.find? fun s => s.target = i) = none := by
      rw [List.find?_eq_none]
      intro s hs heq
      exact h (List.mem_map.mpr ⟨s, hs, by simpa using heq⟩)
    rw [slot_arrangement hi, hnone]
  · simp [Arrangement.slot, arrangement, hi]

/-- A step leads its part to its target, if no other step leads there. -/
theorem slot_arrangement_of_mem (hnodup : (steps.map Step.target).Nodup) {s : Step}
    (hs : s ∈ steps) (hlt : s.target < count) :
    (arrangement kind count steps).slot s.target =
      ⟨s.source, (s.twist % kind.modulus).toNat⟩ := by
  rw [slot_arrangement hlt]
  cases hfind : steps.find? fun t => t.target = s.target with
  | none =>
    have hne := List.find?_eq_none.mp hfind s hs
    simp at hne
  | some t =>
    have htarget : t.target = s.target := by simpa using List.find?_some hfind
    obtain rfl : t = s :=
      List.inj_on_of_nodup_map hnodup (List.mem_of_find?_eq_some hfind) hs htarget
    rfl

/-- Steps between the same locations make a valid arrangement. -/
theorem valid_arrangement (hnodup : (steps.map Step.target).Nodup)
    (hperm : (steps.map Step.source).Perm (steps.map Step.target))
    (hlt : ∀ s ∈ steps, s.target < count) : (arrangement kind count steps).Valid kind count := by
  rw [Arrangement.valid_iff]
  refine ⟨size_arrangement, ?_, ?_⟩
  · intro p hp
    by_cases hmem : p ∈ steps.map Step.source
    · obtain ⟨s, hs, rfl⟩ := List.mem_map.mp hmem
      exact ⟨s.target, hlt s hs, by rw [slot_arrangement_of_mem hnodup hs (hlt s hs)]⟩
    · rw [hperm.mem_iff] at hmem
      exact ⟨p, hp, by rw [slot_arrangement_of_not_mem hmem]⟩
  · intro i hi
    have hm : 0 < kind.modulus := Arrangement.modulus_pos kind
    by_cases hmem : i ∈ steps.map Step.target
    · obtain ⟨s, hs, rfl⟩ := List.mem_map.mp hmem
      rw [slot_arrangement_of_mem hnodup hs hi]
      show (s.twist % kind.modulus).toNat < kind.modulus
      have hlt := Int.emod_lt_of_pos s.twist (by omega : (0 : Int) < kind.modulus)
      omega
    · rw [slot_arrangement_of_not_mem hmem]
      exact hm

/-- The steps to carry out. -/
def directed (c : PartCycle) (inverse : Bool) : List Step :=
  if inverse then c.steps.map Step.inverse else c.steps

/-- A cycle without repeated locations, or its inverse, makes a valid arrangement of a cube that has
its locations. -/
theorem valid_arrangement_directed (hnodup : c.locations.Nodup)
    (hlt : ∀ x ∈ c.locations, x < count) (inverse : Bool) :
    (arrangement kind count (c.directed inverse)).Valid kind count := by
  have hrotate : (c.locations.rotate 1).Perm c.locations := List.rotate_perm _ 1
  cases inverse with
  | false =>
    refine valid_arrangement ?_ ?_ ?_
    · rw [directed, if_neg (by decide), map_target_steps]
      exact List.nodup_rotate.mpr hnodup
    · rw [directed, if_neg (by decide), map_target_steps, map_source_steps]
      exact hrotate.symm
    · intro s hs
      have hmem : s.target ∈ c.steps.map Step.target := List.mem_map_of_mem hs
      rw [map_target_steps, List.mem_rotate] at hmem
      exact hlt _ hmem
  | true =>
    have hsource : (c.steps.map Step.inverse).map Step.source = c.steps.map Step.target := by
      rw [List.map_map]
      rfl
    have htarget : (c.steps.map Step.inverse).map Step.target = c.steps.map Step.source := by
      rw [List.map_map]
      rfl
    refine valid_arrangement ?_ ?_ ?_
    · rw [directed, if_pos rfl, htarget, map_source_steps]
      exact hnodup
    · rw [directed, if_pos rfl, htarget, hsource, map_target_steps, map_source_steps]
      exact hrotate
    · intro s hs
      have hmem : s.target ∈ (c.steps.map Step.inverse).map Step.target := List.mem_map_of_mem hs
      rw [htarget, map_source_steps] at hmem
      exact hlt _ hmem

/-- A cycle without repeated locations does the same to every cube of as many layers, or is refused
by all. -/
theorem act?_uniform {n : Nat} (hnodup : c.locations.Nodup) (inverse : Bool) :
    (∃ g : Cube, g.Valid n ∧ ∀ cube : Cube, cube.Valid n →
        c.act? inverse cube = some (cube.andThen g)) ∨
      ∀ cube : Cube, cube.Valid n → c.act? inverse cube = none := by
  cases hkind : c.kind with
  | none =>
    refine Or.inl ⟨Cube.solved n, Cube.valid_solved, ?_⟩
    intro cube hcube
    rw [hcube.andThen_solved]
    simp only [act?, hkind]
  | some kind =>
    by_cases hempty : c.items.isEmpty = true
    · refine Or.inl ⟨Cube.solved n, Cube.valid_solved, ?_⟩
      intro cube hcube
      rw [hcube.andThen_solved]
      simp only [act?, hkind, hempty, if_true]
    · by_cases hall : (c.items.all fun item => item.location < kind.count n) = true
      · have hlt : ∀ x ∈ c.locations, x < kind.count n := by
          intro x hx
          obtain ⟨item, hitem, rfl⟩ := List.mem_map.mp hx
          simpa using List.all_eq_true.mp hall item hitem
        refine Or.inl ⟨(Cube.solved n).setArrangement kind
          (arrangement kind (kind.count n) (c.directed inverse)), ?_, ?_⟩
        · exact Cube.valid_setArrangement Cube.valid_solved
            (valid_arrangement_directed hnodup hlt inverse)
        · intro cube hcube
          simp only [act?, hkind, hempty, Cube.count, hcube.1, hall, if_true]
          rw [Cube.rearrange_eq_andThen hcube]
          rfl
      · refine Or.inr ?_
        intro cube hcube
        simp only [act?, hkind, hempty, Cube.count, hcube.1, hall]
        rfl

end PartCycle

end CubeLang
