import CubeLang.Proofs.Cube.VisualText
import CubeLang.Proofs.Grammar.SuffixRoundTrip

/-!
# Visual texts read back

The visual text of a state is read wherever the sign of a cycle stands, also behind it, since no
side part is written with a sign of its own. The script that is read makes the state out of a new
cube, but for the twists of the side parts.
-/

set_option autoImplicit false

namespace CubeLang.Cube

variable {n : Nat} {f : Fixity} {c : Cube}

/-- Where no side part is twisted, none is written with a sign. -/
theorem signsApart_untwisted (n : Nat) (c : Cube) : c.untwisted.SignsApart n := by
  intro p hp i hi
  obtain ⟨cycle, -, rfl⟩ := List.mem_map.mp hp
  have hitems := items_written_untwisted .side c.sides cycle
  have hi' : i ∈ (PartCycle.written .side c.sides.untwisted cycle).items := hi
  rw [hitems] at hi'
  obtain ⟨location, -, rfl⟩ := List.mem_map.mp hi'
  exact Or.inl rfl

/-- **The visual text of a state is read as what can be seen of it.** It is accepted by the grammar
of its notation, whatever the fixity of cycles, and the script that is read makes the state with no
side part twisted out of a new cube. -/
theorem visual_text_round_trip (hn : 2 ≤ n) (hn' : n ≤ 7) (hf : f ∈ Config.fixities)
    (hc : c.Valid n) (memory : Memory) :
    ∃ config terms grammar script fresh,
      Config.checked { layerCount := n, fixity := f } = .ok config ∧
      config.toNotation = .ok terms ∧ Grammar.ofNotation terms ∅ = .ok grammar ∧
      grammar.parse (c.visualText (.ofNotation terms)) memory = .ok script memory ∧
      create n = .ok fresh ∧
      script.apply false fresh = .ok () { c with sides := c.sides.untwisted } := by
  have hplace : f.HasPlace := by
    have hfixities : ∀ f ∈ Config.fixities,
        f ∈ [Fixity.precircumfixed, .prefixed, .postcircumfixed] ∨ f = .suffixed := by decide
    exact hfixities f hf
  have hreadable : ∀ e ∈ c.untwisted.written, ∀ i ∈ e.2.items, Reading.Readable n f e.1 i := by
    intro e he i hi hsuffixed
    exact readable_iff.mpr (signsApart_untwisted n c) e he i hi rfl
  obtain ⟨span, scripts, cycles, hparse, hperforms, hall⟩ :=
    @Valid.parse_readable n f c.untwisted memory hn hn' hplace hc.untwisted hreadable
  rw [← hc.visualText_eq, ← CycleTokens.ofNotation_signed hn f] at hparse
  exact ⟨_, _, _, _, _, checked_signed hn hn' hf, Config.toNotation_eq hn f,
    Grammar.ofNotation_signed, hparse, create_eq hn hn',
    Script.apply_of_actAll? span hperforms hall⟩

/-- Where signs stand behind, the scrambled state is seen without the twists of its side parts. -/
theorem visual_text_round_trip_scrambled :
    2 ≤ 4 ∧ 4 ≤ 7 ∧ Fixity.suffixed ∈ Config.fixities ∧ scrambled.Valid 4 ∧
    ∃ config terms grammar script fresh,
      Config.checked { layerCount := 4, fixity := .suffixed } = .ok config ∧
      config.toNotation = .ok terms ∧ Grammar.ofNotation terms ∅ = .ok grammar ∧
      grammar.parse (scrambled.visualText (.ofNotation terms)) {} = .ok script {} ∧
      create 4 = .ok fresh ∧
      script.apply false fresh =
        .ok () { scrambled with sides := scrambled.sides.untwisted } := by
  have hvalid : scrambled.Valid 4 := by
    refine ⟨rfl, ?_⟩
    intro kind
    cases kind <;> decide
  exact ⟨by decide, by decide, by decide, hvalid,
    visual_text_round_trip (by decide) (by decide) (by decide) hvalid {}⟩

end CubeLang.Cube
