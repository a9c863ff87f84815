import CubeLang.Grammar.Expression

/-!
# Parsing scripts

Parsing turns a text into a script. The body of a macro is parsed where the macro is used first,
and remembered. A macro whose body is being parsed cannot be used there, so macros cannot contain
themselves, and each level of macros has one less to use.
-/

set_option autoImplicit false

namespace CubeLang

/-- The scripts directly below a script that is a sequence. -/
def Script.children : Script → List Script
  | .sequence _ children => children
  | _ => []

/-- The memory with the body of a macro, which is reported. -/
def Memory.keep (m : Memory) (identifier : String) (body : Script) : Memory :=
  { m with bodies := m.bodies.put identifier body }.report
    (.expanded identifier body.children.length)

namespace Grammar

/-- Parses a text in which only some macros may be used, and of these only the ones whose bodies are
not being parsed around it. The former are one less at each level, so that parsing ends. -/
def parseWith (g : Grammar) (available : List String) (text : String) : Reader Script :=
  fun memory =>
    let chars := text.toList
    let reading : Reading := {
      grammar := g
      length := chars.length
      expand := fun t memory =>
        if _usable : t.text ∈ available ∧ t.text ∉ memory.inProgress then
          match memory.bodies.get? t.text with
          | some body => .ok body memory
          | none =>
            match g.parseWith (available.erase t.text) ((g.macros.get? t.text).getD "")
              (memory.enter t.text) with
            | .error e memory =>
              .error (.ofToken (.inMacro t.text e.cause) t) (memory.leave t.text)
            | .ok body memory => .ok body ((memory.leave t.text).keep t.text body)
        else .error (.ofToken (.macroInItself t.text) t) memory }
    match reading.readAll (g.lexicon.tokens chars) memory with
    | .ok scripts memory => .ok (.sequence ⟨0, chars.length⟩ scripts) memory
    | .error e memory => .error e (memory.report (.parseFailed e))
termination_by available.length
decreasing_by
  have := List.length_pos_of_mem _usable.1
  rw [List.length_erase_of_mem _usable.1]
  omega

/-- Parses a text. -/
def parse (g : Grammar) (text : String) : Reader Script :=
  g.parseWith g.macros.keys text

end Grammar

end CubeLang
