import CubeLang.Grammar.Parse

/-!
# Reading whole texts

Parsing a text reads its tokens to the end, with a reading that knows the text and what the macros in
it stand for.
-/

set_option autoImplicit false

namespace CubeLang.Grammar

/-- What the use of a macro stands for, if only some macros may be used. -/
def expansion (g : Grammar) (available : List String) (t : Token) : Reader Script := fun memory =>
  if t.text ∈ available ∧ t.text ∉ memory.inProgress then
    match memory.bodies.get? t.text with
    | some body => .ok body memory
    | none =>
      match g.parseWith (available.erase t.text) ((g.macros.get? t.text).getD "")
        (memory.enter t.text) with
      | .error e memory => .error (.ofToken (.inMacro t.text e.cause) t) (memory.leave t.text)
      | .ok body memory => .ok body ((memory.leave t.text).keep t.text body)
  else .error (.ofToken (.macroInItself t.text) t) memory

/-- The reading of a text of some length. -/
def reading (g : Grammar) (available : List String) (length : Nat) : Reading where
  grammar := g
  length := length
  expand := g.expansion available

/-- Parsing a text is reading all its tokens. -/
theorem parseWith_eq (g : Grammar) (available : List String) (text : String) (m : Memory) :
    g.parseWith available text m =
      match (g.reading available text.toList.length).readAll (g.lexicon.tokens text.toList) m with
      | .ok scripts m' => .ok (.sequence ⟨0, text.toList.length⟩ scripts) m'
      | .error e m' => .error e (m'.report (.parseFailed e)) := by
  rw [parseWith]
  rfl

variable {g : Grammar} {text : String} {root : Script} {m m' : Memory}

/-- Reading the tokens of a text to the end parses it. -/
theorem parse_of_readAll {scripts : List Script}
    (hread : (g.reading g.macros.keys text.toList.length).readAll (g.lexicon.tokens text.toList) m =
      .ok scripts m') : g.parse text m = .ok (.sequence ⟨0, text.toList.length⟩ scripts) m' := by
  rw [parse, parseWith_eq, hread]

/-- Parsing a text that gives a script reads its tokens to the end. -/
theorem exists_readAll_of_parse (hparse : g.parse text m = .ok root m') :
    ∃ scripts, root = .sequence ⟨0, text.toList.length⟩ scripts ∧
      (g.reading g.macros.keys text.toList.length).readAll (g.lexicon.tokens text.toList) m =
        .ok scripts m' := by
  rw [parse, parseWith_eq] at hparse
  split at hparse
  · rename_i scripts m'' hread
    obtain ⟨rfl, rfl⟩ := EStateM.Result.ok.inj hparse
    exact ⟨scripts, rfl, hread⟩
  · contradiction

end CubeLang.Grammar
