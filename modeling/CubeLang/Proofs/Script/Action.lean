import CubeLang.Proofs.Cube.PartCycle
import CubeLang.Proofs.Cube.Turn
import CubeLang.Proofs.Script.RunRelation

/-!
# What a script does to a cube

A script is one state of the cube: it rearranges every valid state by it, or it is refused by every
one. This holds of turns and of cycles of parts, and it is kept when such steps are done one after
the other or again and again, so that it holds of scripts however they are nested.
-/

set_option autoImplicit false

namespace CubeLang.Script

mutual

/-- Whether every cycle of parts in a script came about by adding parts. -/
def CyclesBuilt : Script → Prop
  | move _ _ | nop _ => True
  | sequence _ children | grouping _ children => AllCyclesBuilt children
  | repetition _ _ child | inversion _ child | reflection _ child => child.CyclesBuilt
  | conjugation _ a b | rotation _ a b | commutation _ a b => a.CyclesBuilt ∧ b.CyclesBuilt
  | macroUse _ _ body => body.CyclesBuilt
  | permutation _ c => c.Built

/-- Whether every cycle of parts in some scripts came about by adding parts. -/
def AllCyclesBuilt : List Script → Prop
  | [] => True
  | s :: rest => s.CyclesBuilt ∧ AllCyclesBuilt rest

end

mutual

theorem cyclesBuilt_iff_each :
    (s : Script) → (s.CyclesBuilt ↔ s.Each (fun _ => True) PartCycle.Built)
  | move _ _ | permutation _ _ | nop _ => Iff.rfl
  | sequence _ children | grouping _ children => allCyclesBuilt_iff_allEach children
  | repetition _ _ child | inversion _ child | reflection _ child => cyclesBuilt_iff_each child
  | conjugation _ a b | rotation _ a b | commutation _ a b =>
    and_congr (cyclesBuilt_iff_each a) (cyclesBuilt_iff_each b)
  | macroUse _ _ body => cyclesBuilt_iff_each body

theorem allCyclesBuilt_iff_allEach : (children : List Script) →
    (AllCyclesBuilt children ↔ AllEach (fun _ => True) PartCycle.Built children)
  | [] => Iff.rfl
  | s :: rest => and_congr (cyclesBuilt_iff_each s) (allCyclesBuilt_iff_allEach rest)

end

variable {n : Nat} {f g : Step Cube Unit}

/-! ## Single actions -/

section Perform

variable {span : Span} {m : Move} {cycle : PartCycle} {inverse : Bool} {c c' : Cube}

theorem perform_turn_of_ok (span : Span) (h : c.turn m.axis m.layerMask m.angle = .ok c') :
    perform (.turn span m) c = .ok () c' := by
  refine (bind_of_ok (rfl : (get : Step Cube Cube) c = .ok c c)).trans ?_
  rw [h]
  rfl

theorem perform_turn_of_error {fault : Cube.Fault} (span : Span)
    (h : c.turn m.axis m.layerMask m.angle = .error fault) :
    perform (.turn span m) c = .error (.cube fault) c := by
  refine (bind_of_ok (rfl : (get : Step Cube Cube) c = .ok c c)).trans ?_
  rw [h]
  rfl

theorem perform_cycle_of_some (h : cycle.act? inverse c = some c') :
    perform (.cycle cycle inverse) c = .ok () c' := by
  refine (bind_of_ok (rfl : (get : Step Cube Cube) c = .ok c c)).trans ?_
  rw [h]
  rfl

theorem perform_cycle_of_none (h : cycle.act? inverse c = none) :
    perform (.cycle cycle inverse) c = .error .noLocation c := by
  refine (bind_of_ok (rfl : (get : Step Cube Cube) c = .ok c c)).trans ?_
  rw [h]
  rfl

end Perform

/-- A step that rearranges every valid state of a cube by the same one. -/
def ActsAs (n : Nat) (f : Step Cube Unit) (state : Cube) : Prop :=
  state.Valid n ∧ ∀ c : Cube, c.Valid n → f c = .ok () (c.andThen state)

/-- One step after the other rearranges by what the second state makes of the first. -/
theorem ActsAs.andThen {state state' : Cube} (hf : ActsAs n f state) (hg : ActsAs n g state') :
    ActsAs n (do f; g) (state.andThen state') := by
  refine ⟨hf.1.andThen hg.1, ?_⟩
  intro c hc
  rw [bind_of_ok (hf.2 c hc), hg.2 _ (hc.andThen hf.1), hf.1.andThen_assoc hg.1]

/-- A step that fails from every valid state of a cube. -/
def Refused (n : Nat) (f : Step Cube Unit) : Prop :=
  ∀ c : Cube, c.Valid n → ∃ fault c', f c = .error fault c'

/-- A step that does the same to every valid state of a cube. -/
def Uniform (n : Nat) (f : Step Cube Unit) : Prop := (∃ state, ActsAs n f state) ∨ Refused n f

namespace Uniform

theorem skip : Uniform n (pure ()) := by
  refine Or.inl ⟨Cube.solved n, Cube.valid_solved, ?_⟩
  intro c hc
  rw [hc.andThen_solved]
  rfl

theorem fail (fault : Fault) : Uniform n (throw fault) :=
  Or.inr fun c _ => ⟨fault, c, rfl⟩

/-- One uniform step after the other is uniform. -/
theorem andThen (hf : Uniform n f) (hg : Uniform n g) : Uniform n (do f; g) := by
  rcases hf with ⟨first, hf⟩ | hf
  · rcases hg with ⟨second, hg⟩ | hg
    · exact Or.inl ⟨first.andThen second, hf.andThen hg⟩
    · refine Or.inr ?_
      intro c hc
      rw [bind_of_ok (hf.2 c hc)]
      exact hg _ (hc.andThen hf.1)
  · refine Or.inr ?_
    intro c hc
    obtain ⟨fault, c', hfail⟩ := hf c hc
    exact ⟨fault, c', by rw [bind_of_error hfail]⟩

/-- A turn is uniform, whatever its numbers. -/
theorem turn (hn : 2 ≤ n) (span : Span) (m : Move) : Uniform n (perform (.turn span m)) := by
  rcases Cube.turn_uniform hn m.axis m.layerMask m.angle with ⟨axis, hok⟩ | ⟨fault, herror⟩
  · refine Or.inl ⟨_, Cube.valid_ofTurn hn axis m.layerMask.toNat m.angle, ?_⟩
    intro c hc
    exact perform_turn_of_ok span (hok c hc)
  · refine Or.inr ?_
    intro c hc
    exact ⟨.cube fault, c, perform_turn_of_error span (herror c hc)⟩

/-- A cycle of parts that was built is uniform. -/
theorem cycle {cycle : PartCycle} (h : cycle.Built) (inverse : Bool) :
    Uniform n (perform (.cycle cycle inverse)) := by
  rcases PartCycle.act?_uniform h.nodup_locations inverse with ⟨state, hstate, hok⟩ | hnone
  · refine Or.inl ⟨state, hstate, ?_⟩
    intro c hc
    exact perform_cycle_of_some (hok c hc)
  · refine Or.inr ?_
    intro c hc
    exact ⟨.noLocation, c, perform_cycle_of_none (hnone c hc)⟩

end Uniform

/-! ## Whole scripts -/

/-- A property of steps that failing at once has, that is kept when steps follow each other, and
that whatever is done with a move or with a cycle built part by part has. -/
structure RunProperty {σ : Type} (visit : Action → Step σ Unit) (R : Step σ Unit → Prop) : Prop where
  skip : R (pure ())
  fail : ∀ fault, R (throw fault)
  andThen : ∀ {f g : Step σ Unit}, R f → R g → R (do f; g)
  turn : ∀ (span : Span) (m : Move), R (visit (.turn span m))
  cycle : ∀ {c : PartCycle}, c.Built → ∀ inverse, R (visit (.cycle c inverse))

namespace RunProperty

variable {σ : Type} {visit : Action → Step σ Unit} {R : Step σ Unit → Prop}

theorem again (hR : RunProperty visit R) {f : Step σ Unit} (h : R f) (k : Nat) :
    R (repeated k f) := by
  induction k with
  | zero => exact hR.skip
  | succ k ih =>
    rw [repeated_succ]
    exact hR.andThen h ih

mutual

/-- A run of a script has the property, in every direction, wherever it ends. -/
theorem walk (hR : RunProperty visit R) (reflecting inverse : Bool) :
    (s : Script) → s.CyclesBuilt → R (s.walk visit reflecting inverse)
  | move span m, _ => by
    unfold Script.walk
    split
    · exact hR.fail _
    · exact hR.turn _ _
  | nop _, _ => by
    unfold Script.walk
    exact hR.skip
  | sequence _ children, h | grouping _ children, h => by
    unfold Script.walk
    exact walkAll hR reflecting inverse children h
  | repetition _ count child, h => by
    unfold Script.walk
    exact hR.again (walk hR reflecting inverse child h) count.value
  | inversion _ child, h => by
    unfold Script.walk
    exact walk hR reflecting (!inverse) child h
  | reflection _ child, h => by
    unfold Script.walk
    split
    · exact walk hR false inverse child h
    · split
      · exact hR.fail _
      · exact walk hR true inverse child h
  | conjugation _ a b, h => by
    unfold Script.walk
    exact hR.andThen (walk hR reflecting false a h.1)
      (hR.andThen (walk hR reflecting inverse b h.2) (walk hR reflecting true a h.1))
  | rotation _ a b, h => by
    unfold Script.walk
    exact hR.andThen (walk hR reflecting true a h.1)
      (hR.andThen (walk hR reflecting inverse b h.2) (walk hR reflecting false a h.1))
  | commutation _ a b, h => by
    have ha := fun i => walk hR reflecting i a h.1
    have hb := fun i => walk hR reflecting i b h.2
    unfold Script.walk
    cases inverse with
    | false => exact hR.andThen (ha false) (hR.andThen (hb false) (hR.andThen (ha true) (hb true)))
    | true => exact hR.andThen (hb false) (hR.andThen (ha false) (hR.andThen (hb true) (ha true)))
  | macroUse _ _ body, h => by
    unfold Script.walk
    exact walk hR reflecting inverse body h
  | permutation _ c, h => by
    unfold Script.walk
    exact hR.cycle h inverse

/-- So has a run of scripts one after the other. -/
theorem walkAll (hR : RunProperty visit R) (reflecting inverse : Bool) : (children : List Script) →
    AllCyclesBuilt children → R (Script.walkAll visit reflecting inverse children)
  | [], _ => by
    unfold Script.walkAll
    exact hR.skip
  | s :: rest, h => by
    have hfirst := walk hR reflecting inverse s h.1
    have hrest := walkAll hR reflecting inverse rest h.2
    unfold Script.walkAll
    cases inverse with
    | false => exact hR.andThen hfirst hrest
    | true => exact hR.andThen hrest hfirst

end

end RunProperty

/-- A script does the same to every valid state of a cube, in every direction. -/
theorem uniform_walk (hn : 2 ≤ n) (reflecting inverse : Bool) (s : Script) (h : s.CyclesBuilt) :
    Uniform n (s.walk perform reflecting inverse) := by
  have hR : RunProperty perform (Uniform n) := {
    skip := .skip
    fail := .fail
    andThen := .andThen
    turn := .turn hn
    cycle := .cycle }
  exact hR.walk reflecting inverse s h

end CubeLang.Script
