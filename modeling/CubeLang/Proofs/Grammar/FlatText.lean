import CubeLang.Proofs.Grammar.GroupedText
import CubeLang.Proofs.Grammar.LegalScripts
import CubeLang.Proofs.Grammar.MoveReading

/-!
# Scripts written as their moves

However a script in the built-in notation is nested, it can be written as its moves, one after the
other with blanks between them. Each move has a token, or the opposite move has one: the groups of
layers of the notation turn about all six faces, so that seen in the reflection a move is the opposite
one of another face. The text is read in the notation without macros as a script with the same moves.
-/

set_option autoImplicit false

namespace CubeLang

open Notation

variable {n : Nat} {h : 2 ≤ n}

/-- The moves of a script that is read in the built-in notation can be written. -/
theorem Grammar.named_of_parseAfresh {f : Fixity} {macros : Table String String}
    {usable : List String} {text : String} {root : Script}
    (hparse : (builtIn n h f macros).parseAfresh usable text = .ok root) :
    root.Each (Named n) fun _ => True := by
  refine each_of_parseAfresh ?_ (fun _ _ _ _ _ _ => trivial) hparse
  intro token m hm
  exact named_of_mem (mem_of_move? ((move?_signed h token).symm.trans hm))

/-- The texts of moves that can be written are read as a script with these moves. -/
theorem Grammar.exists_parse_moveTexts {f : Fixity} {moves : List Move}
    (hmoves : ∀ m ∈ moves, Named n m) (memory : Memory) : ∃ root listed,
      (signed n h f).parse (" ".intercalate (moves.map (moveText (ofLayerCount n h)))) memory =
        .ok root memory ∧
      root.resolvedMoves false = .ok listed ∧ listed.map Prod.snd = moves := by
  obtain ⟨lss, hlss, hspells⟩ := spells_moveTexts (h := h) (f := f) hmoves
  generalize " ".intercalate (moves.map (moveText (ofLayerCount n h))) = text at hspells ⊢
  obtain ⟨scripts, hread, hmakes, -⟩ := Reading.readAll_moves
    (r := (signed n h f).reading [] text.toList.length) rfl hlss hspells.tokens_eq memory
  obtain ⟨listed, hlisted, heq⟩ := Script.resolvedMoves_of_makes ⟨0, text.toList.length⟩ hmakes
  exact ⟨_, listed, parse_of_readAll hread, hlisted, heq⟩

/-- **A script can be written as its moves.** Whatever the macros are and whatever was parsed before,
every move of a script that is read in the built-in notation has a token, or the opposite move has one.
These tokens, the first for each move, with the mark of an inversion where it is the opposite move that
has one and with blanks between them, are read in the notation without macros as a script with the same
moves. -/
theorem Grammar.flat_text_round_trip (hn : 2 ≤ n) {macros : Table String String}
    (hnames : ∀ name ∈ macros.keys, name ≠ "") (texts : List String) (text : String)
    (inverse : Bool) (memory : Memory) :
    ∃ terms g plain, Notation.default n = .ok terms ∧ Grammar.ofNotation terms macros = .ok g ∧
      Grammar.ofNotation terms ∅ = .ok plain ∧
      ∀ root m, g.parse text (g.memoryAfter texts) = .ok root m →
        ∃ moves root' moves', root.resolvedMoves inverse = .ok moves ∧
          (∀ e ∈ moves, (terms.moveToken? e.2).isSome = true ∨
            (terms.moveToken? e.2.inverse).isSome = true) ∧
          plain.parse (" ".intercalate (moves.map fun e => moveText terms e.2)) memory =
            .ok root' memory ∧
          root'.resolvedMoves false = .ok moves' ∧
          moves'.map Prod.snd = moves.map Prod.snd := by
  have hgrammar := ofNotation_builtIn (h := hn) (f := .precircumfixed) hnames
  have hplain := ofNotation_signed (h := hn) (f := .precircumfixed)
  rw [signed_precircumfixed] at hgrammar hplain
  refine ⟨_, builtIn n hn .precircumfixed macros, signed n hn .precircumfixed, default_eq hn,
    hgrammar, hplain, ?_⟩
  intro root m hparse
  obtain ⟨hsound, hidle⟩ := sound_memoryAfter (builtIn n hn .precircumfixed macros) texts
  obtain ⟨-, -, hafresh⟩ := parse_of_sound hsound hidle text
  rw [hparse] at hafresh
  obtain ⟨moves, hmoves, hnamed⟩ := Script.exists_resolvedMoves (fun _ hm => hm.inverse)
    (fun _ hm => hm.reflected hn) (named_of_parseAfresh hafresh.symm) inverse
  have hwritten : ∀ m ∈ moves.map Prod.snd, Named n m := by
    intro m hm
    obtain ⟨e, he, rfl⟩ := List.mem_map.mp hm
    exact hnamed e he
  obtain ⟨root', moves', hread, hmoves', heq⟩ :=
    exists_parse_moveTexts (h := hn) (f := .precircumfixed) hwritten memory
  rw [List.map_map] at hread
  exact ⟨moves, root', moves', hmoves, fun e he => (hnamed e he).isSome_moveToken?, hread, hmoves',
    heq⟩

/-- A macro in the reflection and a commutation with a middle layer, written as their moves. -/
theorem Grammar.flat_text_round_trip_reflectedTurn : ∃ terms g plain root m moves root' moves',
    2 ≤ 3 ∧ (∀ name ∈ turnMacros.keys, name ≠ "") ∧ Notation.default 3 = .ok terms ∧
    Grammar.ofNotation terms turnMacros = .ok g ∧ Grammar.ofNotation terms ∅ = .ok plain ∧
    g.parse "Turn* [MR, U']" (g.memoryAfter ["Turn"]) = .ok root m ∧
    root.resolvedMoves false = .ok moves ∧
    " ".intercalate (moves.map fun e => moveText terms e.2) = "D' L MR U' ML U" ∧
    plain.parse "D' L MR U' ML U" {} = .ok root' {} ∧ root'.resolvedMoves false = .ok moves' ∧
    moves'.map Prod.snd = moves.map Prod.snd := by
  let terms := Notation.signed 3 (by decide) .precircumfixed
  let g := builtIn 3 (by decide) .precircumfixed turnMacros
  have hdefault : Notation.default 3 = .ok terms := rfl
  have hnames : ∀ name ∈ turnMacros.keys, name ≠ "" := by decide
  have hgrammar : Grammar.ofNotation terms turnMacros = .ok g := ofNotation_builtIn hnames
  obtain ⟨hread, hflat⟩ :
      (outcome (g.parse "Turn* [MR, U']" (g.memoryAfter ["Turn"]))).isOk = true ∧
      (((outcome (g.parse "Turn* [MR, U']" (g.memoryAfter ["Turn"]))).toOption.bind fun root =>
        (root.resolvedMoves false).toOption).map fun moves =>
          moves.map fun e => moveText terms e.2) = some ["D'", "L", "MR", "U'", "ML", "U"] := by
    decide +kernel
  obtain ⟨root, m, hparse⟩ := exists_eq_ok_of_isOk hread
  obtain ⟨terms', g', plain, hterms', hg', hplain, hgiven⟩ :=
    flat_text_round_trip (n := 3) (by decide) hnames ["Turn"] "Turn* [MR, U']" false {}
  obtain rfl : terms = terms' := Except.ok.inj (hdefault.symm.trans hterms')
  obtain rfl : g = g' := Except.ok.inj (hgrammar.symm.trans hg')
  obtain ⟨moves, root', moves', hmoves, -, hread', hmoves', heq⟩ := hgiven root m hparse
  have hflat : moves.map (fun e => moveText terms e.2) = ["D'", "L", "MR", "U'", "ML", "U"] := by
    have hlisted : (outcome (.ok root m : EStateM.Result ParseError Memory Script)).toOption =
        some root := rfl
    rw [hparse, hlisted, Option.bind_some, hmoves] at hflat
    exact Option.some.inj hflat
  have htext : " ".intercalate ["D'", "L", "MR", "U'", "ML", "U"] = "D' L MR U' ML U" := by decide
  rw [hflat, htext] at hread'
  exact ⟨terms, g, plain, root, m, moves, root', moves', by decide, hnames, hdefault, hgrammar,
    hplain, hparse, hmoves, by rw [hflat, htext], hread', hmoves', heq⟩

end CubeLang
