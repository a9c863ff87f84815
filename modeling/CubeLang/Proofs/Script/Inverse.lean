import CubeLang.Proofs.Script.OppositeRuns
import CubeLang.Proofs.Script.Order

/-!
# Undoing scripts

A turn is undone by the turn by the opposite angle, and a cycle of parts by the same steps the other
way. Steps done one after the other are undone by what undoes each of them, the last one first. So a
script carried out in one direction is undone by the same script carried out in the other one,
however it is nested: what is put around an operand undoes itself, and what is done to the operand
is undone inside.
-/

set_option autoImplicit false

namespace CubeLang

/-! ## Turns -/

namespace Cube

variable {n : Nat} {c c' : Cube} {axis mask angle : Int}

/-- A turn that is not refused has an axis, layers of the cube and an angle of at most half a
turn. -/
theorem legal_of_turn (hc : c.Valid n) (h : c.turn axis mask angle = .ok c') :
    ∃ a, Axis.ofInt? axis = some a ∧ LayerMask.isOf mask n = true ∧
      [-2, -1, 1, 2].contains angle = true := by
  unfold turn at h
  rw [hc.1] at h
  split at h
  · contradiction
  · rename_i a haxis
    split at h
    · contradiction
    · rename_i hmask
      split at h
      · rename_i hangle
        exact ⟨a, haxis, by simpa using hmask, hangle⟩
      · contradiction

/-- What a turn does is undone by the turn by the opposite angle. -/
theorem turn_neg_of_turn (hn : 2 ≤ n) (hc : c.Valid n) (h : c.turn axis mask angle = .ok c') :
    c'.Valid n ∧ c'.turn axis mask (-angle) = .ok c := by
  obtain ⟨a, haxis, hmask, hangle⟩ := legal_of_turn hc h
  have hvalid := valid_ofTurn hn a mask.toNat angle
  have hvalid' := valid_ofTurn hn a mask.toNat (-angle)
  have hangle' : [-2, -1, 1, 2].contains (-angle) = true := by
    simp only [List.contains_eq_mem, List.mem_cons, List.not_mem_nil, or_false,
      decide_eq_true_eq] at hangle ⊢
    omega
  obtain rfl : c' = c.andThen (ofTurn n a mask.toNat angle) :=
    Except.ok.inj (h.symm.trans (turn_ok hn hc haxis hmask hangle))
  refine ⟨hc.andThen hvalid, ?_⟩
  rw [turn_ok hn (hc.andThen hvalid) haxis hmask hangle', hvalid.andThen_assoc hvalid',
    ofTurn_andThen_add hn, Int.add_right_neg, ofTurn_no_angle hn, hc.andThen_solved]

/-- Rearranging the parts of one kind twice is rearranging them by what the second makes of the
first. -/
theorem rearrange_rearrange (kind : PartKind) {a b : Arrangement}
    (ha : a.Valid kind (kind.count n)) (hb : b.Valid kind (kind.count n)) :
    (c.rearrange kind a).rearrange kind b = c.rearrange kind (a.andThen kind.modulus b) := by
  refine ext_arrangement (by simp [rearrange]) ?_
  intro other
  simp only [rearrange, arrangement_setArrangement]
  split
  · exact ha.andThen_assoc hb
  · rfl

theorem Valid.rearrange_solved (hc : c.Valid n) (kind : PartKind) :
    c.rearrange kind (.solved (kind.count n)) = c := by
  refine ext_arrangement (by simp [rearrange]) ?_
  intro other
  rw [rearrange, arrangement_setArrangement]
  split
  · rename_i heq
    rw [heq, (hc.2 kind).andThen_solved]
  · rfl

theorem Valid.rearrange (hc : c.Valid n) {kind : PartKind} {a : Arrangement}
    (ha : a.Valid kind (kind.count n)) : (c.rearrange kind a).Valid n :=
  valid_setArrangement hc ((hc.2 kind).andThen ha)

end Cube

/-! ## Cycles of parts -/

namespace PartCycle

variable {n : Nat} {kind : PartKind} {count : Nat} {steps : List Step} {c : PartCycle}

theorem emod_add_emod_neg (kind : PartKind) (t : Int) :
    ((t % kind.modulus).toNat + (-t % kind.modulus).toNat) % kind.modulus = 0 := by
  cases kind <;> simp only [PartKind.modulus] <;> omega

/-- Steps between the same locations and the same steps the other way leave every part in its
place. -/
theorem arrangement_andThen_inverse (htarget : (steps.map Step.target).Nodup)
    (hperm : (steps.map Step.source).Perm (steps.map Step.target))
    (hlt : ∀ s ∈ steps, s.target < count) :
    (arrangement kind count steps).andThen kind.modulus
      (arrangement kind count (steps.map Step.inverse)) = Arrangement.solved count := by
  have hback : (steps.map Step.inverse).map Step.target = steps.map Step.source := by
    rw [List.map_map]
    rfl
  have hsource : ((steps.map Step.inverse).map Step.target).Nodup := by
    rw [hback]
    exact hperm.nodup_iff.mpr htarget
  refine Arrangement.ext_slot (by simp) ?_
  intro j hj
  rw [Arrangement.size_andThen] at hj
  have hj' : j < count := by rwa [size_arrangement] at hj
  rw [Arrangement.slot_andThen hj, Arrangement.slot_solved]
  by_cases hmem : j ∈ steps.map Step.source
  · obtain ⟨s, hs, rfl⟩ := List.mem_map.mp hmem
    have hinverse : (arrangement kind count (steps.map Step.inverse)).slot s.source =
        ⟨s.target, (-s.twist % kind.modulus).toNat⟩ :=
      slot_arrangement_of_mem hsource (List.mem_map_of_mem hs) hj'
    simp [hinverse, slot_arrangement_of_mem htarget hs (hlt s hs), emod_add_emod_neg]
  · have hmem' : j ∉ steps.map Step.target := fun h => hmem (hperm.mem_iff.mpr h)
    have hmem'' : j ∉ (steps.map Step.inverse).map Step.target := by rwa [hback]
    simp [slot_arrangement_of_not_mem hmem', slot_arrangement_of_not_mem hmem'']

theorem directed_not (c : PartCycle) (inverse : Bool) :
    c.directed (!inverse) = (c.directed inverse).map Step.inverse := by
  cases inverse with
  | false => rfl
  | true =>
    have hinverse : Step.inverse ∘ Step.inverse = id := by
      funext s
      simp [Step.inverse]
    simp [directed, hinverse]

/-- A cycle without repeated locations and its inverse leave every part in its place. -/
theorem arrangement_directed_andThen (hnodup : c.locations.Nodup)
    (hlt : ∀ x ∈ c.locations, x < count) (inverse : Bool) :
    (arrangement kind count (c.directed inverse)).andThen kind.modulus
      (arrangement kind count (c.directed !inverse)) = Arrangement.solved count := by
  have hrotate : (c.locations.rotate 1).Perm c.locations := List.rotate_perm _ 1
  have hends : ((c.directed inverse).map Step.target).Perm c.locations ∧
      ((c.directed inverse).map Step.source).Perm c.locations := by
    cases inverse with
    | false => exact ⟨map_target_steps c ▸ hrotate, map_source_steps c ▸ .refl _⟩
    | true =>
      have hsource : ((c.directed true).map Step.source) = c.steps.map Step.target := by
        simp [directed, Step.inverse]
      have htarget : ((c.directed true).map Step.target) = c.steps.map Step.source := by
        simp [directed, Step.inverse]
      rw [hsource, htarget]
      exact ⟨map_source_steps c ▸ .refl _, map_target_steps c ▸ hrotate⟩
  rw [directed_not]
  refine arrangement_andThen_inverse (hends.1.nodup_iff.mpr hnodup)
    (hends.2.trans hends.1.symm) ?_
  intro s hs
  exact hlt _ (hends.1.mem_iff.mp (List.mem_map_of_mem hs))

/-- A cycle of parts either changes nothing or rearranges its kind of parts, if the cube has its
locations. -/
theorem act?_cases {inverse : Bool} {cube cube' : Cube} (h : c.act? inverse cube = some cube') :
    (cube' = cube ∧ ∀ inverse cube, c.act? inverse cube = some cube) ∨
      ∃ kind, (∀ x ∈ c.locations, x < cube.count kind) ∧
        ∀ inverse other, other.layerCount = cube.layerCount → c.act? inverse other = some
          (other.rearrange kind (arrangement kind (cube.count kind) (c.directed inverse))) := by
  cases hkind : c.kind with
  | none =>
    refine Or.inl ⟨?_, by simp [act?, hkind]⟩
    simpa [act?, hkind] using h.symm
  | some kind =>
    by_cases hempty : c.items.isEmpty = true
    · refine Or.inl ⟨?_, by simp [act?, hkind, hempty]⟩
      simpa [act?, hkind, hempty] using h.symm
    · by_cases hall : (c.items.all fun item => item.location < cube.count kind) = true
      · refine Or.inr ⟨kind, ?_, ?_⟩
        · intro x hx
          obtain ⟨item, hitem, rfl⟩ := List.mem_map.mp hx
          simpa using List.all_eq_true.mp hall item hitem
        · intro inverse other hcount
          have hsame : other.count kind = cube.count kind := by rw [Cube.count, hcount, Cube.count]
          simp only [act?, hkind, hempty, hsame, hall, if_true]
          rfl
      · simp [act?, hkind, hempty, hall] at h

/-- What a cycle of parts does is undone by its inverse. -/
theorem act?_not_of_act? (hnodup : c.locations.Nodup) {inverse : Bool} {cube cube' : Cube}
    (hcube : cube.Valid n) (h : c.act? inverse cube = some cube') :
    cube'.Valid n ∧ c.act? (!inverse) cube' = some cube := by
  rcases act?_cases h with ⟨rfl, hnothing⟩ | ⟨kind, hlt, hact⟩
  · exact ⟨hcube, hnothing _ _⟩
  · have hcount : cube.count kind = kind.count n := by rw [Cube.count, hcube.1]
    rw [hcount] at hlt hact
    have hvalid : ∀ inverse, (arrangement kind (kind.count n) (c.directed inverse)).Valid kind
        (kind.count n) := valid_arrangement_directed hnodup hlt
    obtain rfl := Option.some.inj (h.symm.trans (hact inverse cube rfl))
    have hturned := hcube.rearrange (hvalid inverse)
    refine ⟨hturned, ?_⟩
    rw [hact _ _ (hturned.1.trans hcube.1.symm),
      Cube.rearrange_rearrange kind (hvalid _) (hvalid _), arrangement_directed_andThen hnodup hlt,
      hcube.rearrange_solved]

end PartCycle

/-! ## Scripts -/

namespace Script

variable {n : Nat} {f g f' g' : Step Cube Unit}

/-- Whatever the step `f` makes of a valid state is valid, and the step `g` leads back from it. -/
def UndoneBy (n : Nat) (f g : Step Cube Unit) : Prop :=
  ∀ c c' : Cube, c.Valid n → f c = .ok () c' → c'.Valid n ∧ g c' = .ok () c

namespace UndoneBy

theorem skip : UndoneBy n (pure ()) (pure ()) := by
  intro c c' hc h
  obtain rfl : c = c' := by
    injection h
  exact ⟨hc, rfl⟩

/-- A step that fails makes nothing that would have to be undone. -/
theorem fail (fault : Fault) : UndoneBy n (throw fault) g := by
  intro c c' _ h
  injection h

/-- Of two steps the second one is undone first. -/
theorem andThen (hf : UndoneBy n f g) (hf' : UndoneBy n f' g') :
    UndoneBy n (do f; f') (do g'; g) := by
  intro c c' hc h
  cases hfirst : f c with
  | error fault c₁ =>
    rw [bind_of_error hfirst] at h
    injection h
  | ok _ c₁ =>
    rw [bind_of_ok hfirst] at h
    obtain ⟨hc₁, hback⟩ := hf c c₁ hc hfirst
    obtain ⟨hc', hback'⟩ := hf' c₁ c' hc₁ h
    exact ⟨hc', (bind_of_ok hback').trans hback⟩

theorem turn (hn : 2 ≤ n) (span : Span) (m : Move) :
    UndoneBy n (perform (.turn span m)) (perform (.turn span m.inverse)) := by
  intro c c' hc h
  cases hturn : c.turn m.axis m.layerMask m.angle with
  | error fault =>
    rw [perform_turn_of_error span hturn] at h
    injection h
  | ok c₁ =>
    rw [perform_turn_of_ok span hturn] at h
    obtain rfl : c₁ = c' := by
      injection h
    obtain ⟨hc', hback⟩ := Cube.turn_neg_of_turn hn hc hturn
    exact ⟨hc', perform_turn_of_ok span hback⟩

theorem cycle {cycle : PartCycle} (hcycle : cycle.Built) (inverse : Bool) :
    UndoneBy n (perform (.cycle cycle inverse)) (perform (.cycle cycle !inverse)) := by
  intro c c' hc h
  cases hact : cycle.act? inverse c with
  | none =>
    rw [perform_cycle_of_none hact] at h
    injection h
  | some c₁ =>
    rw [perform_cycle_of_some hact] at h
    obtain rfl : c₁ = c' := by
      injection h
    obtain ⟨hc', hback⟩ := PartCycle.act?_not_of_act? hcycle.nodup_locations hc hact
    exact ⟨hc', perform_cycle_of_some hback⟩

end UndoneBy

/-- What a script does in one direction is undone by what it does in the other one. -/
theorem undoneBy_walk (hn : 2 ≤ n) (reflecting inverse : Bool) (s : Script) (h : s.CyclesBuilt) :
    UndoneBy n (s.walk perform reflecting inverse) (s.walk perform reflecting (!inverse)) := by
  have hR : OppositeRelation (fun _ => True) PartCycle.Built perform perform (UndoneBy n) := {
    skip := .skip
    refused := fun _ _ _ => .fail _
    andThen := .andThen
    turn := .turn hn
    cycle := fun _ => .cycle }
  exact hR.walk reflecting inverse s ((cyclesBuilt_iff_each s).mp h)

/-- Where a script is not refused, the same script in the other direction is not refused
afterwards, and restores the state. -/
theorem apply_not_of_apply {s : Script} {c c' : Cube} (hn : 2 ≤ n) (hs : s.CyclesBuilt)
    (hc : c.Valid n) (inverse : Bool) (hrun : s.apply inverse c = .ok () c') :
    s.apply (!inverse) c' = .ok () c :=
  (undoneBy_walk hn false inverse s hs c c' hc hrun).2

/-- On a cube with three layers, the commutator and the twist seen in the reflection, between two
turns of the front layers and their undoing. -/
def conjugatedReflection : Script :=
  .conjugation {} (.repetition {} ⟨2, by decide⟩ (.move {} ⟨3, 2, 6, 1⟩))
    (.reflection {}
      (.grouping {} [commutatorThenTwist, .inversion {} (.permutation {} twistedCentre)]))

theorem cyclesBuilt_conjugatedReflection : conjugatedReflection.CyclesBuilt := by
  simp [conjugatedReflection, CyclesBuilt, AllCyclesBuilt, cyclesBuilt_commutatorThenTwist,
    built_twistedCentre]

/-- The state that a script makes of another one, unless it is refused. -/
def result? (s : Script) (inverse : Bool) (c : Cube) : Option Cube :=
  match s.apply inverse c with
  | .ok _ c' => some c'
  | .error _ _ => none

theorem exists_apply_of_isSome_result? {s : Script} {inverse : Bool} {c : Cube}
    (h : (s.result? inverse c).isSome = true) : ∃ c', s.apply inverse c = .ok () c' := by
  unfold result? at h
  split at h
  · rename_i c' hrun
    exact ⟨c', hrun⟩
  · contradiction

/-- The conjugated reflection, carried out inversely on a cube whose right layer was turned, is
undone when it is carried out forward. -/
theorem apply_conjugatedReflection_of_inverse :
    2 ≤ 3 ∧ conjugatedReflection.CyclesBuilt ∧ (Cube.ofTurn 3 .x 4 1).Valid 3 ∧
      ∃ c', conjugatedReflection.apply true (Cube.ofTurn 3 .x 4 1) = .ok () c' ∧
        conjugatedReflection.apply (!true) c' = .ok () (Cube.ofTurn 3 .x 4 1) := by
  have hsome : (conjugatedReflection.result? true (Cube.ofTurn 3 .x 4 1)).isSome = true := by
    decide +kernel
  obtain ⟨c', hrun⟩ := exists_apply_of_isSome_result? hsome
  have hvalid := Cube.valid_ofTurn (n := 3) (by decide) .x 4 1
  refine ⟨by decide, cyclesBuilt_conjugatedReflection, hvalid, c', hrun, ?_⟩
  exact apply_not_of_apply (by decide) cyclesBuilt_conjugatedReflection hvalid true hrun

end Script

end CubeLang
