import CubeLang.Proofs.Grammar.MarkedNumbers
import CubeLang.Proofs.Grammar.RoundTrip

/-!
# States written with signs behind

Where signs stand behind, the text of a state makes the state out of a new cube if no side part is
written with both a sign and a number, and is refused if one is. On cubes with at most three layers
no side part has a number, so that every state is read back there.
-/

set_option autoImplicit false

namespace CubeLang

namespace Reading

variable {n : Nat} {f : Fixity} {kind : PartKind} {i : PartCycle.Item}

theorem readable_of_ne_side (hkind : kind ≠ .side) : Readable n f kind i := by
  intro _
  cases kind with
  | side => contradiction
  | corner => exact Or.inl rfl
  | edge => exact Or.inl rfl

theorem roundLexemes_side_eq_nil_iff (n k : Nat) :
    PartCycle.roundLexemes n .side k = [] ↔ roundText n k = "" := by
  have hnumber : ∀ k : Nat, toString k ≠ "" := by
    intro k hempty
    exact Text.Integer.toList_toString_ne_nil k (congrArg String.toList hempty)
  have hlexemes : PartCycle.roundLexemes n .side k =
      if n % 2 = 0 then [.number (k + 1)] else if k = 0 then [] else [.number k] := rfl
  rw [hlexemes, roundText]
  split
  · exact iff_of_false (List.cons_ne_nil _ _) (hnumber _)
  · split
    · exact iff_of_true rfl rfl
    · exact iff_of_false (List.cons_ne_nil _ _) (hnumber _)

theorem readable_side_iff : Readable n .suffixed .side i ↔
    i.orientation = 0 ∨ roundText n (i.location / 6) = "" := by
  have hmark : PartCycle.ownMark .side i = none ↔ i.orientation = 0 := by
    rw [PartCycle.ownMark]
    rcases i.orientation with _ | _ | _ | twist
    all_goals simp [PartCycle.mark]
  unfold Readable
  rw [hmark, roundLexemes_side_eq_nil_iff]
  simp [PartCycle.round]

end Reading

namespace Cube

variable {n : Nat} {c : Cube}

/-- No side part has both a sign and a number in the text of a state. -/
def SignsApart (n : Nat) (c : Cube) : Prop :=
  ∀ p ∈ c.writtenOf .side, ∀ i ∈ p.items, i.orientation = 0 ∨ roundText n (i.location / 6) = ""

instance (n : Nat) (c : Cube) : Decidable (c.SignsApart n) :=
  List.decidableBAll _ _

/-- These are the states whose parts can all be read. -/
theorem readable_iff : (∀ e ∈ c.written, ∀ i ∈ e.2.items, Reading.Readable n .suffixed e.1 i) ↔
    c.SignsApart n := by
  constructor
  · intro hreadable p hp i hi
    exact Reading.readable_side_iff.mp (hreadable (.side, p) (mem_written.mpr hp) i hi)
  · rintro hapart ⟨kind, p⟩ he i hi
    by_cases hkind : kind = .side
    · subst hkind
      exact Reading.readable_side_iff.mpr (hapart p (mem_written.mp he) i hi)
    · exact Reading.readable_of_ne_side hkind

/-- On a cube with at most three layers no side part has a number. -/
theorem Valid.signsApart_of_le (hc : c.Valid n) (hn : n ≤ 3) : c.SignsApart n := by
  intro p hp i hi
  right
  have hlt : i.location < 6 * ((n - 2) * (n - 2)) := (hc.plain_of_mem_writtenOf hp).location_lt i hi
  have hround : i.location / 6 < (n - 2) * (n - 2) := Nat.div_lt_of_lt_mul hlt
  rcases Nat.lt_or_eq_of_le hn with hsmall | rfl
  · rw [Nat.sub_eq_zero_of_le (Nat.le_of_lt_succ hsmall)] at hround
    contradiction
  · have hfirst : i.location / 6 = 0 := Nat.lt_one_iff.mp hround
    rw [hfirst]
    rfl

/-- A text in which a side part has both a sign and a number is refused. -/
theorem Valid.parse_of_not_signsApart (h : 2 ≤ n) (hn : n ≤ 7) (hc : c.Valid n)
    (htogether : ¬c.SignsApart n) (memory : Memory) :
    ∃ e, (Grammar.signed n h .suffixed).parse (c.text { fixity := .suffixed }) memory =
      .error e (memory.report (.parseFailed e)) := by
  rw [← readable_iff] at htogether
  exact hc.parse_unreadable h hn (by simpa only [not_forall, exists_prop] using htogether) memory

/-- Where signs stand behind, the text of a state is accepted by the grammar of its notation if no
side part in it has both a sign and a number, and then the script that is read makes exactly the
state out of a new cube; if a side part has both, the text is refused. -/
theorem suffixed_text_round_trip (hn : 2 ≤ n) (hn' : n ≤ 7) (hc : c.Valid n) (memory : Memory) :
    ∃ config terms grammar fresh,
      Config.checked { layerCount := n, fixity := .suffixed } = .ok config ∧
      config.toNotation = .ok terms ∧ Grammar.ofNotation terms ∅ = .ok grammar ∧
      create n = .ok fresh ∧
      (c.SignsApart n → ∃ script,
        grammar.parse (c.text (.ofNotation terms)) memory = .ok script memory ∧
        script.apply false fresh = .ok () c) ∧
      (¬c.SignsApart n → ∃ e,
        grammar.parse (c.text (.ofNotation terms)) memory =
          .error e (memory.report (.parseFailed e))) := by
  have hfixity : Fixity.suffixed ∈ Config.fixities := by decide
  refine ⟨_, _, _, _, checked_signed hn hn' hfixity, Config.toNotation_eq hn .suffixed,
    Grammar.ofNotation_signed, create_eq hn hn', ?_, ?_⟩
  · intro hapart
    obtain ⟨span, scripts, cycles, hparse, hperforms, hall⟩ :=
      @Valid.parse_readable n .suffixed c memory hn hn' (Or.inr rfl) hc (readable_iff.mpr hapart)
    rw [← CycleTokens.ofNotation_signed hn .suffixed] at hparse
    exact ⟨_, hparse, Script.apply_of_actAll? span hperforms hall⟩
  · intro htogether
    rw [CycleTokens.ofNotation_signed hn .suffixed]
    exact hc.parse_of_not_signsApart hn hn' htogether memory

/-- Two centers have changed places and are turned, and two other side parts have changed places
without a turn, `(r,u++)+ (r1,f1)`: what has a sign has no number. -/
def centersTurned : Cube where
  layerCount := 5
  corners := Arrangement.solved 8
  edges := Arrangement.solved 36
  sides := ((((Arrangement.solved 54).set! 0 ⟨1, 1⟩).set! 1 ⟨0, 2⟩).set! 6 ⟨8, 0⟩).set! 8 ⟨6, 0⟩

theorem suffixed_text_round_trip_centersTurned :
    2 ≤ 5 ∧ 5 ≤ 7 ∧ centersTurned.Valid 5 ∧ centersTurned.SignsApart 5 ∧
    ∃ config terms grammar fresh,
      Config.checked { layerCount := 5, fixity := .suffixed } = .ok config ∧
      config.toNotation = .ok terms ∧ Grammar.ofNotation terms ∅ = .ok grammar ∧
      create 5 = .ok fresh ∧
      ∃ script, grammar.parse (centersTurned.text (.ofNotation terms)) {} = .ok script {} ∧
        script.apply false fresh = .ok () centersTurned := by
  have hvalid : centersTurned.Valid 5 := by
    refine ⟨rfl, ?_⟩
    intro kind
    cases kind <;> decide
  have hapart : centersTurned.SignsApart 5 := by decide
  obtain ⟨config, terms, grammar, fresh, hchecked, hterms, hgrammar, hfresh, hread, -⟩ :=
    suffixed_text_round_trip (n := 5) (by decide) (by decide) hvalid {}
  exact ⟨by decide, by decide, hvalid, hapart, config, terms, grammar, fresh, hchecked, hterms,
    hgrammar, hfresh, hread hapart⟩

/-- Two side parts have changed places, and one is turned on its way. -/
def sidesExchanged : Cube where
  layerCount := 4
  corners := Arrangement.solved 8
  edges := Arrangement.solved 24
  sides := ((Arrangement.solved 24).set! 0 ⟨1, 3⟩).set! 1 ⟨0, 1⟩

/-- Where signs stand behind, this state is written with a sign in front of a number, and its text
is refused. -/
theorem sidesExchanged_refused : sidesExchanged.Valid 4 ∧
    ∃ config terms grammar e,
      Config.checked { layerCount := 4, fixity := .suffixed } = .ok config ∧
      config.toNotation = .ok terms ∧ Grammar.ofNotation terms ∅ = .ok grammar ∧
      sidesExchanged.text (.ofNotation terms) = "(r1,u-1)" ∧
      grammar.parse (sidesExchanged.text (.ofNotation terms)) {} =
        .error e (({} : Memory).report (.parseFailed e)) := by
  have hvalid : sidesExchanged.Valid 4 := by
    refine ⟨rfl, ?_⟩
    intro kind
    cases kind <;> decide
  have htogether : ¬sidesExchanged.SignsApart 4 := by decide
  have htext : sidesExchanged.text { fixity := .suffixed } = "(r1,u-1)" := by decide +kernel
  obtain ⟨e, hrefused⟩ := hvalid.parse_of_not_signsApart (by decide) (by decide) htogether {}
  rw [← CycleTokens.ofNotation_signed (n := 4) (by decide) .suffixed] at hrefused htext
  exact ⟨hvalid, _, _, _, e, checked_signed (by decide) (by decide) (by decide),
    Config.toNotation_eq (by decide) .suffixed, Grammar.ofNotation_signed, htext, hrefused⟩

end Cube

end CubeLang
