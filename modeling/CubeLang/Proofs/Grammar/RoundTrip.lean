import CubeLang.Proofs.Config
import CubeLang.Proofs.Grammar.StateReading
import CubeLang.Proofs.Script.Action

/-!
# States written and read back

The text of a state of a cube, in the notation of any configuration whose signs of cycles stand in
front of the parts or inside the brackets, is a script that makes the state out of a new cube. The
state need not be one that moves lead to: any arrangement of the parts will do.
-/

set_option autoImplicit false

namespace CubeLang

namespace Script

variable {scripts : List Script} {cycles : List PartCycle} {c c' : Cube}

theorem walkAll_of_actAll? (h : List.Forall₂ Performs scripts cycles)
    (hact : c.actAll? cycles = some c') : walkAll perform false false scripts c = .ok () c' := by
  induction h generalizing c with
  | nil =>
    obtain rfl := Option.some.inj hact
    rfl
  | @cons s p scripts cycles hs hrest ih =>
    obtain ⟨span, rfl⟩ := hs
    rw [Cube.actAll?, List.foldlM_cons] at hact
    obtain ⟨next, hnext, hact⟩ := Option.bind_eq_some_iff.mp hact
    have hfirst : walk perform false false (.permutation span p) c = .ok () next :=
      perform_cycle_of_some hnext
    exact (bind_of_ok hfirst).trans (ih hact)

/-- A sequence of scripts that carry out cycles of parts carries them out one after the other. -/
theorem apply_of_actAll? (span : Span) (h : List.Forall₂ Performs scripts cycles)
    (hact : c.actAll? cycles = some c') : (sequence span scripts).apply false c = .ok () c' :=
  walkAll_of_actAll? h hact

end Script

namespace Cube

variable {n : Nat} {f : Fixity} {c : Cube}

theorem mem_layers (hn : 2 ≤ n) (hn' : n ≤ 7) : (n : Int) ∈ [2, 3, 4, 5, 6, 7] := by
  simp only [List.mem_cons, List.not_mem_nil, or_false]
  omega

/-- A configuration with any layer count and any fixity of cycles is accepted. -/
theorem checked_signed (hn : 2 ≤ n) (hn' : n ≤ 7) (hf : f ∈ Config.fixities) :
    Config.checked { layerCount := n, fixity := f } = .ok { layerCount := n, fixity := f } :=
  Config.checked_eq_ok_iff.mpr ⟨rfl, mem_layers hn hn', hf, by simp⟩

theorem create_eq (hn : 2 ≤ n) (hn' : n ≤ 7) : create n = .ok (solved n) :=
  create_of_supported (mem_layers hn hn')

/-- The text of a state is accepted by the grammar of its notation, and the script that is read
makes exactly the state out of a new cube. -/
theorem text_round_trip (hn : 2 ≤ n) (hn' : n ≤ 7)
    (hf : f ∈ [Fixity.precircumfixed, .prefixed, .postcircumfixed]) (hc : c.Valid n)
    (memory : Memory) :
    ∃ config terms grammar script fresh,
      Config.checked { layerCount := n, fixity := f } = .ok config ∧
      config.toNotation = .ok terms ∧ Grammar.ofNotation terms ∅ = .ok grammar ∧
      grammar.parse (c.text (.ofNotation terms)) memory = .ok script memory ∧
      create n = .ok fresh ∧ script.apply false fresh = .ok () c := by
  have hfixity : f ∈ Config.fixities := by
    have hfixities : ∀ f ∈ [Fixity.precircumfixed, .prefixed, .postcircumfixed],
        f ∈ Config.fixities := by decide
    exact hfixities f hf
  obtain ⟨span, scripts, cycles, hparse, hperforms, hall⟩ :=
    @Valid.parse_text n f c memory hn hn' hf hc
  rw [← CycleTokens.ofNotation_signed hn f] at hparse
  exact ⟨_, _, _, _, _, checked_signed hn hn' hfixity, Config.toNotation_eq hn f,
    Grammar.ofNotation_signed, hparse, create_eq hn hn',
    Script.apply_of_actAll? span hperforms hall⟩

/-- A state to which no moves lead: a corner is twisted, two edge parts are exchanged, one of them
flipped, and three side parts have changed places. -/
def scrambled : Cube where
  layerCount := 4
  corners := (Arrangement.solved 8).set! 3 ⟨3, 1⟩
  edges := ((Arrangement.solved 24).set! 1 ⟨14, 1⟩).set! 14 ⟨1, 0⟩
  sides := (((Arrangement.solved 24).set! 0 ⟨7, 2⟩).set! 7 ⟨20, 3⟩).set! 20 ⟨0, 0⟩

theorem text_round_trip_scrambled : 2 ≤ 4 ∧ 4 ≤ 7 ∧
    Fixity.prefixed ∈ [Fixity.precircumfixed, .prefixed, .postcircumfixed] ∧ scrambled.Valid 4 ∧
    ∃ config terms grammar script fresh,
      Config.checked { layerCount := 4, fixity := .prefixed } = .ok config ∧
      config.toNotation = .ok terms ∧ Grammar.ofNotation terms ∅ = .ok grammar ∧
      grammar.parse (scrambled.text (.ofNotation terms)) {} = .ok script {} ∧
      create 4 = .ok fresh ∧ script.apply false fresh = .ok () scrambled := by
  have hvalid : scrambled.Valid 4 := by
    refine ⟨rfl, ?_⟩
    intro kind
    cases kind <;> decide
  exact ⟨by decide, by decide, by decide, hvalid,
    text_round_trip (by decide) (by decide) (by decide) hvalid {}⟩

end Cube

end CubeLang
