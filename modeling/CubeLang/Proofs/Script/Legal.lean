import CubeLang.Proofs.Cube.CycleBounds
import CubeLang.Proofs.Move
import CubeLang.Proofs.Script.Action

/-!
# Legal scripts

A script is legal for a cube if its moves are and its cycles are within the cube, also in the bodies
of its macros. Nothing stops it then: in every direction, as it stands or seen in the reflection,
each of its actions finds the cube in a state with all its parts and leaves it so. This holds of
whatever the actions do, if each of them succeeds: of turning a cube, with or without having it
check the parts that a cycle has moved, and of counting the moves.
-/

set_option autoImplicit false

namespace CubeLang.Script

/-! ## Legal scripts and actions -/

mutual

/-- Whether a cube with `n` layers can make all moves and cycles of a script. -/
def Legal (n : Nat) : Script → Prop
  | move _ m => m.Legal n
  | nop _ => True
  | sequence _ children | grouping _ children => AllLegal n children
  | repetition _ _ child | inversion _ child | reflection _ child => child.Legal n
  | conjugation _ a b | rotation _ a b | commutation _ a b => a.Legal n ∧ b.Legal n
  | macroUse _ _ body => body.Legal n
  | permutation _ c => c.Within n

/-- Whether a cube with `n` layers can make all moves and cycles of some scripts. -/
def AllLegal (n : Nat) : List Script → Prop
  | [] => True
  | s :: rest => s.Legal n ∧ AllLegal n rest

end

/-- Whether a cube with `n` layers can do an action. -/
def Action.Legal (n : Nat) : Action → Prop
  | turn _ m => m.Legal n
  | cycle c _ => c.Within n

variable {n : Nat}

mutual

/-- A script is legal if all its moves are legal and all its cycles are within the cube. -/
theorem legal_iff_each :
    (s : Script) → (s.Legal n ↔ s.Each (Move.Legal n) (PartCycle.Within n))
  | move _ _ | permutation _ _ | nop _ => Iff.rfl
  | sequence _ children | grouping _ children => allLegal_iff_allEach children
  | repetition _ _ child | inversion _ child | reflection _ child => legal_iff_each child
  | conjugation _ a b | rotation _ a b | commutation _ a b =>
    and_congr (legal_iff_each a) (legal_iff_each b)
  | macroUse _ _ body => legal_iff_each body

theorem allLegal_iff_allEach : (children : List Script) →
    (AllLegal n children ↔ AllEach (Move.Legal n) (PartCycle.Within n) children)
  | [] => Iff.rfl
  | s :: rest => and_congr (legal_iff_each s) (allLegal_iff_allEach rest)

end

/-- A legal turn is seen as a legal one, and as the reflection of that one in the reflection. -/
theorem exists_seen_move (hn : 0 < n) (t : LegalTurn n) (inverse : Bool) :
    ∃ t' : LegalTurn n, t.move.seen? false inverse = some t'.move ∧
      t.move.seen? true inverse = some (t'.reflected hn).move := by
  have hreflected := t.reflected?_move hn
  cases inverse with
  | false => exact ⟨t, rfl, congrArg (Option.map _) hreflected⟩
  | true => exact ⟨t.inverse, rfl, congrArg (Option.map _) hreflected⟩

/-- A legal move is legal however it is seen. -/
theorem exists_seen_of_legal (hn : 0 < n) {m : Move} (h : m.Legal n) (reflecting inverse : Bool) :
    ∃ m', m.seen? reflecting inverse = some m' ∧ m'.Legal n :=
  Move.exists_seen_of_closed (fun _ hm => hm.inverse) (fun _ hm => hm.reflected hn) h reflecting
    inverse

/-! ## Steps that succeed alike -/

section

variable {σ : Type} {P : σ → Prop} {f g f' g' : Step σ Unit}

/-- Whether two steps succeed and do the same from every state with a property, and keep it. -/
def Alike (P : σ → Prop) (f g : Step σ Unit) : Prop :=
  ∀ s, P s → ∃ s', f s = .ok () s' ∧ g s = .ok () s' ∧ P s'

namespace Alike

theorem skip : Alike P (pure ()) (pure ()) := fun s hs => ⟨s, rfl, rfl, hs⟩

theorem andThen (h : Alike P f g) (h' : Alike P f' g') : Alike P (do f; f') (do g; g') := by
  intro s hs
  obtain ⟨s₁, hf, hg, hs₁⟩ := h s hs
  obtain ⟨s₂, hf', hg', hs₂⟩ := h' s₁ hs₁
  exact ⟨s₂, (bind_of_ok hf).trans hf', (bind_of_ok hg).trans hg', hs₂⟩

end Alike

variable {visit visit' : Action → Step σ Unit}

/-- If two ways to visit actions succeed alike for all that a cube can do, they succeed alike all
along a legal script. -/
theorem alike_walk (hn : 0 < n) (hvisit : ∀ a : Action, a.Legal n → Alike P (visit a) (visit' a))
    (reflecting inverse : Bool) (s : Script) (h : s.Legal n) :
    Alike P (s.walk visit reflecting inverse) (s.walk visit' reflecting inverse) := by
  have hR : RunRelation (Move.Legal n) (PartCycle.Within n) false visit visit' (Alike P) := by
    refine ⟨Alike.skip, Alike.andThen, ?_, ?_⟩
    · intro span m hm reflecting inverse
      obtain ⟨m', hseen, hlegal⟩ := exists_seen_of_legal hn hm reflecting inverse
      exact ⟨m', m', hseen, by simpa using hseen, hvisit (.turn span m') hlegal⟩
    · intro c hc inverse
      exact hvisit (.cycle c inverse) hc
  simpa using hR.walk reflecting inverse s (s.legal_iff_each.mp h)

end

/-! ## Turning a cube and counting moves -/

/-- Does an action to a cube as `perform` does, but has the cube take the parts of the kind that a
cycle has moved, which it refuses if some part is missing. -/
def performChecked : Action → Step Cube Unit
  | .turn span m => perform (.turn span m)
  | .cycle c inverse => fun cube =>
    match c.act? inverse cube, c.kind with
    | none, _ => .error .noLocation cube
    | some moved, none => .ok () moved
    | some moved, some kind =>
      let a := moved.arrangement kind
      match cube.setParts kind (a.parts.map Int.ofNat) (a.twists.map Int.ofNat) with
      | .error fault => .error (.cube fault) cube
      | .ok cube => .ok () cube

/-- A legal action is done to every state of a cube, whether its parts are checked or not. -/
theorem alike_perform (hn : 2 ≤ n) (a : Action) (h : a.Legal n) :
    Alike (Cube.Valid n) (perform a) (performChecked a) := by
  intro cube hcube
  cases a with
  | turn span m =>
    obtain ⟨cube', hturn, hvalid⟩ := Move.Legal.exists_turn hn h hcube
    have hrun := perform_turn_of_ok span hturn
    exact ⟨cube', hrun, hrun, hvalid⟩
  | cycle c inverse =>
    obtain ⟨cube', hact, hvalid, hmoved⟩ := PartCycle.Within.exists_act h hcube inverse
    refine ⟨cube', perform_cycle_of_some hact, ?_, hvalid⟩
    unfold performChecked
    cases hkind : c.kind with
    | none => simp only [hact, hkind]
    | some kind =>
      simp only [hact, hkind, Cube.setParts_of_valid hcube (hvalid.2 kind), hmoved kind hkind]

theorem alike_count (a : Action) : Alike (fun _ => True) (count a) (count a) := by
  intro k _
  cases a with
  | turn span m => exact ⟨k + 1, rfl, rfl, trivial⟩
  | cycle c inverse => exact ⟨k, rfl, rfl, trivial⟩

/-- A legal script is carried out on every state of a cube, in both directions. The moves of the
script are legal for the cube, and whatever its cycles make of the parts the cube takes. -/
theorem Legal.exists_apply (hn : 2 ≤ n) {s : Script} (h : s.Legal n) (inverse : Bool) {c : Cube}
    (hc : c.Valid n) : ∃ c', s.apply inverse c = .ok () c' ∧
      s.walk performChecked false inverse c = .ok () c' ∧ c'.Valid n :=
  alike_walk (by omega) (alike_perform hn) false inverse s h c hc

/-- The moves of a legal script can be counted. -/
theorem Legal.exists_moveCount (hn : 0 < n) {s : Script} (h : s.Legal n) :
    ∃ k, s.moveCount = .ok k := by
  obtain ⟨k, hcount, -⟩ := alike_walk hn (fun a _ => alike_count a) false false s h 0 trivial
  exact ⟨k, by rw [moveCount, hcount]⟩

end CubeLang.Script
